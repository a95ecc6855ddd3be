import Mathlib.Data.Set.Basic
import PpssppDfx.Scripts.Steps

/-!
# Two syncs that overlap

The manifest is loaded again, and a second sync begins, while a first one may still be waiting
for a check. Each sync goes by the manifest that it read and by the names that it found booked.
What the book will say in the end is decided when the second sync begins, whichever way the two
take turns after that: what is booked by then stays unless one of them is to withdraw it, and
what is not is booked when one of them is to register it. The first one still goes by the old
manifest, so the outcome need not be that of the new one.

## Main definitions

* `Scripts.overlap` — two syncs that take turns, and the load in between
* `Scripts.wanted` — the scripts that are to have a tool
* `Scripts.Concordant` — the first sync is to do nothing that the new manifest is against

## Main results

* `Scripts.Settling.step` — no step of either sync changes what is decided
* `Scripts.scriptNames_freshStart` — the wanted scripts are those of a fresh start
* `Scripts.scriptNames_eq_wanted_iff` — once both are done, the tools are those of the new
  manifest exactly when the first sync was concordant
-/

set_option autoImplicit false

namespace Scripts

open Semantics

variable {Schema : Type*}

/-- What the scheduler does next. A load whose manifest is refused begins no sync. -/
inductive Turn where
  | first (i : Move)
  | second (i : Move)
  | reload (p : Project) (m : ScriptManifest)

/-- A server with its files and its two syncs; the second one may not have begun. -/
structure Overlap (Schema : Type*) where
  server : Server Schema
  project : Project
  first : Sync
  second : Option Sync

/-- The first sync begins: the modules were cleared, and the manifest `m` loaded. -/
def Overlap.begun (s : Server Schema) (p : Project) (m : ScriptManifest) : Overlap Schema :=
  ⟨(beginSync s.clearModuleCache m).1, p, (beginSync s.clearModuleCache m).2, none⟩

def overlap (fromFunction : ExposedWrapper → Except String Schema) :
    Machine (Overlap Schema) Turn where
  step
    | o, .first i => (o.first.move fromFunction o.project o.server i).map fun r =>
        { o with server := r.1, first := r.2 }
    | o, .second i => o.second.bind fun y =>
        (y.move fromFunction o.project o.server i).map fun r =>
          { o with server := r.1, second := some r.2 }
    | o, .reload p m =>
      match o.second with
      | some _ => none
      | none => some ⟨(beginSync o.server.clearModuleCache m).1, p, o.first,
          some (beginSync o.server.clearModuleCache m).2⟩

/-- A sync has returned its report. -/
def Sync.Finished (y : Sync) : Prop := ∃ report, y.stage = .finished report

def Sync.Raised (y : Sync) : Prop := ∃ reason, y.stage = .raised reason

def Overlap.Done (o : Overlap Schema) : Prop :=
  o.first.Finished ∧ ∃ y, o.second = some y ∧ y.Finished

/-- The scripts that have a tool. -/
def Server.scriptNames (s : Server Schema) : Set String := {name | toolName name ∈ s.tools}

/-- An entry of the name can be given its tool. -/
def Offering (fromFunction : ExposedWrapper → Except String Schema) (p : Project)
    (entries : List ScriptEntry) (name : String) : Prop :=
  ∃ e ∈ entries, e.name = name ∧ ∃ t, exposedTool fromFunction p e = .ok (some t)

/-- The scripts that are to have a tool: a manifest and the files determine them. -/
def wanted (fromFunction : ExposedWrapper → Except String Schema) (p : Project)
    (m : ScriptManifest) : Set String :=
  {name | Offering fromFunction p m.desired name}

/-- The entries that a sync has not dealt with. -/
def Sync.remaining (y : Sync) : List ScriptEntry :=
  match y.stage with
  | .waiting e rest => e :: rest
  | .checked e rest _ => e :: rest
  | _ => []

/-- The names that a sync is to withdraw when it comes to its second loop. -/
def Sync.toWithdraw (y : Sync) : List String :=
  match y.stage with
  | .waiting _ _ => staleNames y.current y.manifest
  | .checked _ _ _ => staleNames y.current y.manifest
  | _ => []

/-- A sync is to register a script of the name, unless it is booked by then. -/
def Sync.Offers (fromFunction : ExposedWrapper → Except String Schema) (p : Project) (y : Sync)
    (name : String) : Prop :=
  match y.stage with
  | .waiting e rest => Offering fromFunction p (e :: rest) name
  -- one contract has been checked already, perhaps on other files
  | .checked e rest result =>
    (e.name = name ∧ ∃ t, checkedTool fromFunction e result.toOption = .ok (some t)) ∨
      Offering fromFunction p rest name
  | _ => False

/-- What the first sync has yet to do agrees with the manifest `m`: among the desired scripts
that are booked, it is to withdraw those that the files no longer allow, and no others; and what
it is to register is wanted. -/
structure Concordant (fromFunction : ExposedWrapper → Except String Schema) (o : Overlap Schema)
    (p : Project) (m : ScriptManifest) : Prop where
  kept : ∀ e ∈ m.desired, e.name ∈ o.server.exposedRegistry →
    (e.name ∈ wanted fromFunction p m ↔ e.name ∉ o.first.toWithdraw)
  added : ∀ name ∉ o.server.exposedRegistry, o.first.Offers fromFunction p name →
    name ∈ wanted fromFunction p m

variable {fromFunction : ExposedWrapper → Except String Schema} {p : Project}
  {s s' : Server Schema} {e : ScriptEntry} {m : ScriptManifest} {current : List String}
  {outcomes : List (String × Outcome)} {entries : List ScriptEntry} {name : String}
  {y y' : Sync} {before : Set String}

section Parts

/-- What becomes of an entry whose tool is `o`. -/
inductive Books (s : Server Schema) (e : ScriptEntry) (o : Except String (Option (Tool Schema))) :
    Server Schema × Except String Bool → Prop
  | raised {reason : String} : Books s e o (s, .error reason)
  | left (b : Bool) (h : e.name ∈ s.exposedRegistry ∨ o = .ok none) : Books s e o (s, .ok b)
  | added {t : Tool Schema} (hnew : e.name ∉ s.exposedRegistry) (htool : o = .ok (some t)) :
      Books s e o (⟨s.exposedRegistry.insert e.name (toolName e.name),
        s.tools.insert (toolName e.name) t, s.moduleCache⟩, .ok true)

theorem books (hconsistent : Consistent fromFunction s) (e : ScriptEntry)
    (result : Except ContractError Contract) :
    Books s e (checkedTool fromFunction e result.toOption)
      (bookChecked fromFunction s e result) := by
  cases result with
  | error reason => exact .left false (.inr rfl)
  | ok c =>
    simp only [bookChecked, checkedTool, Except.toOption]
    cases buildExposedWrapper e c.inputCls c.outputCls with
    | error reason => exact .raised
    | ok w =>
      -- the name may have been booked while the check was under way
      by_cases hbooked : e.name ∈ s.exposedRegistry
      · simp only [if_pos hbooked]
        exact .left true (.inl hbooked)
      · have hfree : toolName e.name ∉ s.tools := fun h =>
          hbooked ((hconsistent.agrees e.name).mpr h)
        simp only [if_neg hbooked, addTool]
        cases fromFunction w with
        | error reason => exact .left false (.inr rfl)
        | ok schema =>
          simp only [if_neg hfree]
          exact .added hbooked rfl

theorem roundOutcome_ok (s : Server Schema) (e : ScriptEntry) (b : Bool) :
    ∃ outcome, roundOutcome s e (.ok b) = .ok outcome := by
  cases b <;> exact ⟨_, rfl⟩

theorem mem_unregisterExposedTool {other : String} :
    name ∈ (unregisterExposedTool s other).1.exposedRegistry ↔
      name ∈ s.exposedRegistry ∧ name ≠ other := by
  rw [unregisterExposedTool]
  cases hlookup : s.exposedRegistry.lookup other with
  | none =>
    have hother : other ∉ s.exposedRegistry := AList.lookup_eq_none.mp hlookup
    exact ⟨fun h => ⟨h, fun heq => hother (heq ▸ h)⟩, And.left⟩
  | some tool => exact AList.mem_erase.trans and_comm

/-- The second loop takes exactly its names out of the book. -/
theorem mem_pass_withdraw {names : List String} :
    name ∈ (pass withdraw s names).1.exposedRegistry ↔ name ∈ s.exposedRegistry ∧ name ∉ names := by
  induction names generalizing s with
  | nil => simp [Semantics.pass]
  | cons other rest ih =>
    rw [pass_cons_of_ok rfl, ih, withdraw, mem_unregisterExposedTool, List.mem_cons, not_or,
      and_assoc]

theorem Synced.withdraw (h : Synced fromFunction p s) (names : List String) :
    Synced fromFunction p (pass withdraw s names).1 := by
  refine pass_keeps (fun t other ht => ?_) h
  obtain ⟨hconsistent, hsound⟩ := ht
  have hcache : (Scripts.withdraw t other).1.moduleCache = t.moduleCache := by
    rw [Scripts.withdraw, unregisterExposedTool]
    split <;> rfl
  exact ⟨(withdraw_spec hconsistent other).1, hcache ▸ hsound⟩

end Parts

section Step

/-- How a sync stands to the names that were booked at some time: it has not found any others,
and of its scripts that were booked then it is to skip all. -/
structure Sync.Within (before : Set String) (y : Sync) : Prop where
  desired : y.remaining.Sublist y.manifest.desired
  current : y.remaining ≠ [] → ∀ name ∈ y.current, name ∈ before
  skips : ∀ e ∈ y.remaining, e.name ∈ before → e.name ∈ y.current
  head : ∀ e ∈ y.remaining.head?, e.name ∉ y.current

/-- What a sync still has before it, with the book, makes up what was there before. For a name
that was booked, that is whether it stays; for another one, whether it is ever registered. -/
structure Accounts (fromFunction : ExposedWrapper → Except String Schema) (p : Project)
    (before : Set String) (booked : String → Prop) (offered : String → Prop)
    (withdrawn : List String) (s' : Server Schema) (y' : Sync) : Prop where
  within : y'.Within before
  old : ∀ name ∈ before, (name ∈ s'.exposedRegistry ∧ name ∉ y'.toWithdraw ↔
    booked name ∧ name ∉ withdrawn)
  new : ∀ name ∉ before, (name ∈ s'.exposedRegistry ∨ y'.Offers fromFunction p name ↔
    booked name ∨ offered name)

/-- Accounts that come to the same for every name. -/
theorem Accounts.congr {booked booked' offered offered' : String → Prop} {withdrawn : List String}
    (h : Accounts fromFunction p before booked offered withdrawn s' y')
    (hold : ∀ name ∈ before, (booked name ↔ booked' name))
    (hnew : ∀ name ∉ before, (booked name ∨ offered name ↔ booked' name ∨ offered' name)) :
    Accounts fromFunction p before booked' offered' withdrawn s' y' where
  within := h.within
  old name hname := (h.old name hname).trans (and_congr_left fun _ => hold name hname)
  new name hname := (h.new name hname).trans (hnew name hname)

theorem offering_cons :
    Offering fromFunction p (e :: entries) name ↔
      (e.name = name ∧ ∃ t, exposedTool fromFunction p e = .ok (some t)) ∨
        Offering fromFunction p entries name := by
  simp [Offering]

/-- A sync that has run on stands to the booked names as before. -/
theorem within_proceed (hsub : entries.Sublist m.desired)
    (hcurrent : ∀ name ∈ current, name ∈ before)
    (hskips : ∀ e ∈ entries, e.name ∈ before → e.name ∈ current) :
    (proceed m current s outcomes entries).2.Within before := by
  induction entries generalizing outcomes with
  | nil =>
    refine ⟨List.nil_sublist _, fun h => absurd rfl h, fun e he => ?_, fun e he => ?_⟩
    · cases he
    · cases he
  | cons e rest ih =>
    cases hunchecked : uncheckedOutcome current s e with
    | none =>
      rw [proceed_cons_of_checked hunchecked]
      refine ⟨hsub, fun _ => hcurrent, hskips, fun e' he' => ?_⟩
      obtain rfl : e = e' := by simpa [Sync.remaining] using he'
      exact (uncheckedOutcome_eq_none_iff.mp hunchecked).1
    | some o =>
      rw [proceed_cons_of_unchecked hunchecked]
      exact ih ((List.sublist_cons_self e rest).trans hsub)
        fun e' he' => hskips e' (List.mem_cons_of_mem _ he')

/-- Behind its last script a sync withdraws, which touches no script that was not booked. -/
theorem accounts_finish (hcurrent : ∀ name ∈ current, name ∈ before) :
    Accounts fromFunction p before (· ∈ s.exposedRegistry) (Offering fromFunction p [])
      (staleNames current m) (proceed m current s outcomes []).1
      (proceed m current s outcomes []).2 := by
  have hmem : ∀ name, name ∈ (finish m current outcomes s).1.exposedRegistry ↔
      name ∈ s.exposedRegistry ∧ name ∉ staleNames current m := fun name => mem_pass_withdraw
  refine ⟨within_proceed (List.nil_sublist _) hcurrent fun e he => ?_, ?_, ?_⟩
  · cases he
  · intro name _
    exact ⟨fun h => (hmem name).mp h.1, fun h => ⟨(hmem name).mpr h, List.not_mem_nil⟩⟩
  · intro name hname
    have hnotStale : name ∉ staleNames current m := fun h =>
      hname (hcurrent name (mem_staleNames.mp h).1)
    constructor
    · rintro (h | h)
      · exact .inl ((hmem name).mp h).1
      · exact h.elim
    · rintro (h | ⟨e, he, -⟩)
      · exact .inl ((hmem name).mpr ⟨h, hnotStale⟩)
      · cases he

/-- Running on loses no script that is to be registered, and withdraws at the end. -/
theorem accounts_proceed (hsub : entries.Sublist m.desired)
    (hcurrent : ∀ name ∈ current, name ∈ before)
    (hskips : ∀ e ∈ entries, e.name ∈ before → e.name ∈ current) :
    Accounts fromFunction p before (· ∈ s.exposedRegistry) (Offering fromFunction p entries)
      (staleNames current m) (proceed m current s outcomes entries).1
      (proceed m current s outcomes entries).2 := by
  induction entries generalizing outcomes with
  | nil => exact accounts_finish hcurrent
  | cons e rest ih =>
    cases hunchecked : uncheckedOutcome current s e with
    | none =>
      refine ⟨within_proceed hsub hcurrent hskips, ?_, ?_⟩
      all_goals
        rw [proceed_cons_of_checked hunchecked]
        exact fun _ _ => Iff.rfl
    | some o =>
      rw [proceed_cons_of_unchecked hunchecked]
      have hrest := @ih (outcomes ++ [(e.name, o)])
        ((List.sublist_cons_self e rest).trans hsub)
        (fun e' he' => hskips e' (List.mem_cons_of_mem _ he'))
      refine ⟨hrest.within, hrest.old, fun name hname => (hrest.new name hname).trans ?_⟩
      rw [offering_cons]
      refine ⟨Or.imp_right Or.inr, ?_⟩
      rintro (h | ⟨rfl, -⟩ | h)
      · exact .inl h
      · -- a script that was not booked is only skipped because it is booked now
        left
        by_contra hnew
        have hnone : uncheckedOutcome current s e = none :=
          uncheckedOutcome_eq_none_iff.mpr ⟨fun h => hname (hcurrent _ h),
            m.status_of_mem_desired (hsub.subset List.mem_cons_self), hnew⟩
        rw [hunchecked] at hnone
        cases hnone
      · exact .inr h

theorem Synced.proceed (h : Synced fromFunction p s) :
    Synced fromFunction p (proceed m current s outcomes entries).1 := by
  induction entries generalizing outcomes with
  | nil => exact h.withdraw _
  | cons e rest ih =>
    cases hunchecked : uncheckedOutcome current s e with
    | some o =>
      rw [proceed_cons_of_unchecked hunchecked]
      exact ih
    | none =>
      rw [proceed_cons_of_checked hunchecked]
      exact h

/-- A check tells the sync which tool the entry gets from the files. -/
theorem Sync.move_check (h : y.move fromFunction p s .check = some (s', y'))
    (hsynced : Synced fromFunction p s) :
    Synced fromFunction p s' ∧ s'.exposedRegistry = s.exposedRegistry ∧
      y'.remaining = y.remaining ∧ y'.toWithdraw = y.toWithdraw ∧
      y'.manifest = y.manifest ∧ y'.current = y.current ∧
      (∀ name, y'.Offers fromFunction p name ↔ y.Offers fromFunction p name) := by
  obtain ⟨manifest, current, outcomes, stage⟩ := y
  cases stage with
  | waiting e rest =>
    cases h
    have hcontract := validateScriptContract_eq (e := e) hsynced.2
    refine ⟨⟨hsynced.1.withCache _, validateScriptContract_sound hsynced.2⟩, rfl, rfl, rfl, rfl,
      rfl, fun name => ?_⟩
    simp only [Sync.Offers, hcontract, offering_cons, exposedTool]
  | checked e rest result => cases h
  | finished report => cases h
  | raised reason => cases h

/-- A sync that is resumed books the script that was checked, if it gets a tool and is not booked
yet, and runs on; or it raises. -/
theorem Sync.move_resume (h : y.move fromFunction p s .resume = some (s', y'))
    (hsynced : Synced fromFunction p s) :
    ∃ e rest result, y.stage = .checked e rest result ∧
      (s' = s ∧ y'.Raised ∨
        ∃ (s₁ : Server Schema) (outcomes : List (String × Outcome)), Synced fromFunction p s₁ ∧
          s' = (proceed y.manifest y.current s₁ outcomes rest).1 ∧
          y' = (proceed y.manifest y.current s₁ outcomes rest).2 ∧
          ∀ name, name ∈ s₁.exposedRegistry ↔ name ∈ s.exposedRegistry ∨
            e.name = name ∧ ∃ t, checkedTool fromFunction e result.toOption = .ok (some t)) := by
  obtain ⟨m, current, outcomes, stage⟩ := y
  -- only a sync whose check has come back can be resumed
  cases stage with
  | waiting e rest => cases h
  | finished report => cases h
  | raised reason => cases h
  | checked e rest result =>
    refine ⟨e, rest, result, rfl, ?_⟩
    have hbooks := books hsynced.1 e result
    simp only [Sync.move] at h
    generalize bookChecked fromFunction s e result = booked at hbooks h
    cases hbooks with
    | raised =>
      cases h
      exact .inl ⟨rfl, _, rfl⟩
    | left b hleft =>
      obtain ⟨outcome, houtcome⟩ := roundOutcome_ok s e b
      rw [houtcome] at h
      obtain ⟨rfl, rfl⟩ := Prod.ext_iff.mp (Option.some.inj h)
      refine .inr ⟨s, _, hsynced, rfl, rfl, fun name => ⟨Or.inl, ?_⟩⟩
      -- the script is booked already, or gets no tool
      rintro (hbooked | ⟨rfl, t, ht⟩)
      · exact hbooked
      · rcases hleft with hbooked | hnone
        · exact hbooked
        · rw [ht] at hnone
          cases hnone
    | @added t hnew htool =>
      obtain ⟨outcome, houtcome⟩ := roundOutcome_ok ⟨s.exposedRegistry.insert e.name
        (toolName e.name), s.tools.insert (toolName e.name) t, s.moduleCache⟩ e true
      rw [houtcome] at h
      obtain ⟨rfl, rfl⟩ := Prod.ext_iff.mp (Option.some.inj h)
      refine .inr ⟨_, _, ⟨hsynced.1.insert (genuine_of_checkedTool htool) _, hsynced.2⟩, rfl, rfl,
        fun name => ?_⟩
      rw [AList.mem_insert, or_comm]
      exact or_congr_right ⟨fun heq => ⟨heq.symm, t, htool⟩, fun h => h.1.symm⟩

/-- A step of a sync keeps its accounts, unless the sync raises. -/
theorem Sync.Within.move (hy : y.Within before) (hsynced : Synced fromFunction p s) {i : Move}
    (h : y.move fromFunction p s i = some (s', y')) :
    Synced fromFunction p s' ∧ (y'.Raised ∨
      Accounts fromFunction p before (· ∈ s.exposedRegistry) (y.Offers fromFunction p)
        y.toWithdraw s' y') := by
  cases i with
  | check =>
    obtain ⟨hsynced', hbooked, hremaining, hwithdraw, hmanifest, hcurrent, hoffers⟩ :=
      Sync.move_check h hsynced
    refine ⟨hsynced', .inr ⟨⟨?_, ?_, ?_, ?_⟩, fun name _ => ?_, fun name _ => ?_⟩⟩
    · rw [hremaining, hmanifest]
      exact hy.desired
    · rw [hremaining, hcurrent]
      exact hy.current
    · rw [hremaining, hcurrent]
      exact hy.skips
    · rw [hremaining, hcurrent]
      exact hy.head
    · rw [hbooked, hwithdraw]
    · rw [hbooked, hoffers]
  | resume =>
    obtain ⟨e, rest, result, hstage, hresumed⟩ := Sync.move_resume h hsynced
    have hremaining : y.remaining = e :: rest := by rw [Sync.remaining, hstage]
    obtain ⟨hdesired, hcurrent, hskips, hhead⟩ := hy
    rw [hremaining] at hdesired hcurrent hskips hhead
    rcases hresumed with ⟨rfl, hraised⟩ | ⟨s₁, outcomes, hsynced₁, rfl, rfl, hbooked⟩
    · exact ⟨hsynced, .inl hraised⟩
    have hwithdraw : y.toWithdraw = staleNames y.current y.manifest := by
      rw [Sync.toWithdraw, hstage]
    rw [hwithdraw]
    refine ⟨hsynced₁.proceed, .inr ?_⟩
    apply (accounts_proceed ((List.sublist_cons_self e rest).trans hdesired)
      (hcurrent (List.cons_ne_nil e rest))
      fun e' he' => hskips e' (List.mem_cons_of_mem _ he')).congr
    · -- the script that was checked was not booked before
      intro name hname
      rw [hbooked, or_iff_left_iff_imp]
      rintro ⟨rfl, -⟩
      exact absurd (hskips e List.mem_cons_self hname) (hhead e rfl)
    · intro name _
      rw [hbooked, Sync.Offers, hstage, or_assoc]

end Step

section Turns

/-- What a turn of the two syncs can do. -/
inductive Steps (fromFunction : ExposedWrapper → Except String Schema) (o : Overlap Schema) :
    Overlap Schema → Prop
  | first {i : Move} {s' : Server Schema} {y' : Sync}
      (h : o.first.move fromFunction o.project o.server i = some (s', y')) :
      Steps fromFunction o { o with server := s', first := y' }
  | second {i : Move} {s' : Server Schema} {y y' : Sync} (hy : o.second = some y)
      (h : y.move fromFunction o.project o.server i = some (s', y')) :
      Steps fromFunction o { o with server := s', second := some y' }
  | reload (p : Project) (m : ScriptManifest) (hnone : o.second = none) :
      Steps fromFunction o ⟨(beginSync o.server.clearModuleCache m).1, p, o.first,
        some (beginSync o.server.clearModuleCache m).2⟩

theorem steps_of_step {o o' : Overlap Schema} {t : Turn}
    (h : (overlap fromFunction).step o t = some o') : Steps fromFunction o o' := by
  cases t with
  | first i =>
    obtain ⟨⟨s', y'⟩, hmove, rfl⟩ := Option.map_eq_some_iff.mp h
    exact .first hmove
  | second i =>
    obtain ⟨y, hy, hmap⟩ := Option.bind_eq_some_iff.mp h
    obtain ⟨⟨s', y'⟩, hmove, rfl⟩ := Option.map_eq_some_iff.mp hmap
    exact .second hy hmove
  | reload p m =>
    simp only [overlap] at h
    split at h
    · cases h
    next hnone =>
      cases h
      exact .reload p m hnone

/-- A sync that has raised takes no more steps. -/
theorem Sync.Raised.not_move {i : Move} (hraised : y.Raised) :
    ¬ y.move fromFunction p s i = some (s', y') := by
  intro h
  obtain ⟨reason, hstage⟩ := hraised
  cases i <;> simp [Sync.move, hstage] at h

end Turns

section FirstAlone

/-- The first sync while it is alone: the book holds what it found there and what it has
registered since. -/
structure Alone (fromFunction : ExposedWrapper → Except String Schema) (o : Overlap Schema) :
    Prop where
  second : o.second = none
  synced : Synced fromFunction o.project o.server
  within : o.first.Raised ∨ o.first.Within {name | name ∈ o.server.exposedRegistry}

/-- A sync that waits has changed nothing since its last step. -/
theorem proceed_eq_of_remaining (h : (proceed m current s outcomes entries).2.remaining ≠ []) :
    (proceed m current s outcomes entries).1 = s := by
  induction entries generalizing outcomes with
  | nil => exact absurd rfl h
  | cons e rest ih =>
    cases hunchecked : uncheckedOutcome current s e with
    | some o =>
      rw [proceed_cons_of_unchecked hunchecked] at h ⊢
      exact ih h
    | none => rw [proceed_cons_of_checked hunchecked]

/-- What a sync stands to does not matter once it has nothing before it. -/
theorem Sync.Within.mono {after : Set String} (hy : y.Within before)
    (h : y.remaining ≠ [] → ∀ name, name ∈ after ↔ name ∈ before) : y.Within after := by
  by_cases hremaining : y.remaining = []
  · refine ⟨hy.desired, fun h => absurd hremaining h, fun e he => ?_, hy.head⟩
    rw [hremaining] at he
    cases he
  · have hiff := h hremaining
    exact ⟨hy.desired, fun _ name hname => (hiff name).mpr (hy.current hremaining name hname),
      fun e he hafter => hy.skips e he ((hiff e.name).mp hafter), hy.head⟩

/-- What a sync stands to after it has run on is the book as it is then. -/
theorem within_proceed_booked (hsub : entries.Sublist m.desired)
    (hcurrent : ∀ name ∈ current, name ∈ s.exposedRegistry)
    (hskips : ∀ e ∈ entries, e.name ∈ s.exposedRegistry → e.name ∈ current) :
    (proceed m current s outcomes entries).2.Within
      {name | name ∈ (proceed m current s outcomes entries).1.exposedRegistry} := by
  have hwithin : (proceed m current s outcomes entries).2.Within
      {name | name ∈ s.exposedRegistry} := within_proceed hsub hcurrent hskips
  apply hwithin.mono
  intro hremaining name
  rw [proceed_eq_of_remaining hremaining]

/-- While a sync is alone, its steps keep what it stands to: the book as it is. -/
theorem Sync.Within.moveAlone (hy : y.Within {name | name ∈ s.exposedRegistry})
    (hsynced : Synced fromFunction p s) {i : Move}
    (h : y.move fromFunction p s i = some (s', y')) :
    y'.Raised ∨ y'.Within {name | name ∈ s'.exposedRegistry} := by
  cases i with
  | check =>
    obtain ⟨-, hbooked, -⟩ := Sync.move_check h hsynced
    rw [hbooked]
    exact (hy.move hsynced h).2.imp_right Accounts.within
  | resume =>
    obtain ⟨e, rest, result, hstage, hresumed⟩ := Sync.move_resume h hsynced
    have hremaining : y.remaining = e :: rest := by rw [Sync.remaining, hstage]
    obtain ⟨hdesired, hcurrent, hskips, -⟩ := hy
    rw [hremaining] at hdesired hcurrent hskips
    rcases hresumed with ⟨rfl, hraised⟩ | ⟨s₁, outcomes, -, rfl, rfl, hbooked⟩
    · exact .inl hraised
    right
    apply within_proceed_booked ((List.sublist_cons_self e rest).trans hdesired)
    · intro name hname
      exact (hbooked name).mpr (.inl (hcurrent (List.cons_ne_nil e rest) name hname))
    · intro e' he' hmem
      rcases (hbooked e'.name).mp hmem with hold | ⟨heq, -⟩
      · exact hskips e' (List.mem_cons_of_mem _ he') hold
      · -- no two desired scripts have one name
        have hunique := y.manifest.desired_unique.sublist (hdesired.map ScriptEntry.name)
        exact absurd (heq ▸ List.mem_map_of_mem he') (List.nodup_cons.mp hunique).1

theorem alone_begun (hconsistent : Consistent fromFunction s) (p : Project) (m : ScriptManifest) :
    Alone fromFunction (Overlap.begun s p m) where
  second := rfl
  synced := Synced.proceed ⟨hconsistent.withCache .clear, ModuleCache.sound_clear p⟩
  within := .inr (within_proceed_booked (List.Sublist.refl _) (fun _ h => h) fun _ _ h => h)

/-- Until the second sync begins, the first one is alone. -/
theorem Alone.step {o o' : Overlap Schema} (h : Alone fromFunction o)
    (hstep : Steps fromFunction o o') : Alone fromFunction o' ∨ ∃ y, o'.second = some y := by
  cases hstep with
  | first hmove =>
    rcases h.within with hraised | hwithin
    · exact absurd hmove hraised.not_move
    · exact .inl ⟨h.second, (hwithin.move h.synced hmove).1, hwithin.moveAlone h.synced hmove⟩
  | second hy hmove =>
    rw [h.second] at hy
    cases hy
  | reload p m hnone => exact .inr ⟨_, rfl⟩

/-- A second sync is there to stay. -/
theorem exists_second_of_step {o o' : Overlap Schema} (h : ∃ y, o.second = some y)
    (hstep : Steps fromFunction o o') : ∃ y, o'.second = some y := by
  cases hstep with
  | first hmove => exact h
  | second hy hmove => exact ⟨_, rfl⟩
  | reload p m hnone => exact ⟨_, rfl⟩

theorem alone_of_reachable {o : Overlap Schema} {m : ScriptManifest}
    (hconsistent : Consistent fromFunction s)
    (h : (overlap fromFunction).Reachable (Overlap.begun s p m) o) (hsecond : o.second = none) :
    Alone fromFunction o := by
  have hor : Alone fromFunction o ∨ ∃ y, o.second = some y := by
    refine h.invariant (P := fun o => Alone fromFunction o ∨ ∃ y, o.second = some y)
      (.inl (alone_begun hconsistent p m)) fun t i u ht hstep => ?_
    rcases ht with halone | hbegun
    · exact halone.step (steps_of_step hstep)
    · exact .inr (exists_second_of_step hbegun (steps_of_step hstep))
  rcases hor with halone | ⟨y, hy⟩
  · exact halone
  · rw [hsecond] at hy
    cases hy

end FirstAlone

section Overlapping

/-- Both syncs are under way, or done, and for each name it is decided what the book will say:
`stays` for those that were booked when the second one began, and `comes` for the others. -/
structure Settling (fromFunction : ExposedWrapper → Except String Schema) (p : Project)
    (before : Set String) (stays comes : String → Prop) (o : Overlap Schema) (y : Sync) :
    Prop where
  project : o.project = p
  second : o.second = some y
  synced : Synced fromFunction p o.server
  firstWithin : o.first.Within before
  secondWithin : y.Within before
  old : ∀ name ∈ before, (name ∈ o.server.exposedRegistry ∧ name ∉ o.first.toWithdraw ∧
    name ∉ y.toWithdraw ↔ stays name)
  new : ∀ name ∉ before, (name ∈ o.server.exposedRegistry ∨ o.first.Offers fromFunction p name ∨
    y.Offers fromFunction p name ↔ comes name)

variable {stays comes : String → Prop} {o o' : Overlap Schema}

/-- Whichever sync takes a step, it changes nothing of what is decided, unless it raises. -/
theorem Settling.step (h : Settling fromFunction p before stays comes o y)
    (hstep : Steps fromFunction o o') :
    ∃ y', o'.second = some y' ∧
      (o'.first.Raised ∨ y'.Raised ∨ Settling fromFunction p before stays comes o' y') := by
  obtain rfl := h.project
  cases hstep with
  | first hmove =>
    refine ⟨y, h.second, ?_⟩
    obtain ⟨hsynced, hraised | haccounts⟩ := h.firstWithin.move h.synced hmove
    · exact .inl hraised
    -- the second sync still has before it what it had
    refine .inr (.inr ⟨rfl, h.second, hsynced, haccounts.within, h.secondWithin, ?_, ?_⟩)
    · intro name hname
      rw [← h.old name hname, ← and_assoc, ← and_assoc, haccounts.old name hname]
    · intro name hname
      rw [← h.new name hname, ← or_assoc, ← or_assoc, haccounts.new name hname]
  | @second _ _ y₀ y' hy hmove =>
    obtain rfl : y₀ = y := Option.some.inj (hy.symm.trans h.second)
    refine ⟨y', rfl, ?_⟩
    obtain ⟨hsynced, hraised | haccounts⟩ := h.secondWithin.move h.synced hmove
    · exact .inr (.inl hraised)
    refine .inr (.inr ⟨rfl, rfl, hsynced, h.firstWithin, haccounts.within, ?_, ?_⟩)
    · intro name hname
      rw [← h.old name hname, and_left_comm, haccounts.old name hname, and_left_comm]
    · intro name hname
      rw [← h.new name hname, or_left_comm, haccounts.new name hname, or_left_comm]
  | reload p m hnone =>
    rw [h.second] at hnone
    cases hnone

/-- A sync that has raised stays so, whatever the other one does. -/
theorem raised_of_step (hsecond : o.second = some y) (hraised : o.first.Raised ∨ y.Raised)
    (hstep : Steps fromFunction o o') :
    ∃ y', o'.second = some y' ∧ (o'.first.Raised ∨ y'.Raised) := by
  cases hstep with
  | first hmove => exact ⟨y, hsecond, .inr (hraised.resolve_left fun h => h.not_move hmove)⟩
  | second hy hmove =>
    cases hy.symm.trans hsecond
    exact ⟨_, rfl, .inl (hraised.resolve_right fun h => h.not_move hmove)⟩
  | reload p m hnone =>
    rw [hsecond] at hnone
    cases hnone

/-- What is decided stays decided over every run. -/
theorem settling_of_reachable
    (h : ∃ y, o.second = some y ∧
      (o.first.Raised ∨ y.Raised ∨ Settling fromFunction p before stays comes o y))
    (hreach : (overlap fromFunction).Reachable o o') :
    ∃ y, o'.second = some y ∧
      (o'.first.Raised ∨ y.Raised ∨ Settling fromFunction p before stays comes o' y) := by
  refine hreach.invariant (P := fun o => ∃ y, o.second = some y ∧ (o.first.Raised ∨
    y.Raised ∨ Settling fromFunction p before stays comes o y)) h fun t i u ht hstep => ?_
  obtain ⟨y, hsecond, hraised | hraised | hsettling⟩ := ht
  · obtain ⟨y', hsecond', hraised'⟩ := raised_of_step hsecond (.inl hraised) (steps_of_step hstep)
    exact ⟨y', hsecond', hraised'.imp_right Or.inl⟩
  · obtain ⟨y', hsecond', hraised'⟩ := raised_of_step hsecond (.inr hraised) (steps_of_step hstep)
    exact ⟨y', hsecond', hraised'.imp_right Or.inl⟩
  · exact hsettling.step (steps_of_step hstep)

/-- A booked script stays when neither sync is to withdraw it. -/
def Overlap.Stays (o : Overlap Schema) (m : ScriptManifest) (name : String) : Prop :=
  name ∉ o.first.toWithdraw ∧ name ∈ m.desired.map ScriptEntry.name

/-- Another script comes when either sync is to register it. -/
def Overlap.Comes (fromFunction : ExposedWrapper → Except String Schema) (o : Overlap Schema)
    (p : Project) (m : ScriptManifest) (name : String) : Prop :=
  o.first.Offers fromFunction p name ∨ name ∈ wanted fromFunction p m

/-- With the load it is decided what the book will say. -/
theorem Alone.settling (h : Alone fromFunction o) (p : Project) (m : ScriptManifest)
    (hwithin : o.first.Within {name | name ∈ o.server.exposedRegistry}) :
    Settling fromFunction p {name | name ∈ o.server.exposedRegistry} (o.Stays m)
      (o.Comes fromFunction p m)
      ⟨(beginSync o.server.clearModuleCache m).1, p, o.first,
        some (beginSync o.server.clearModuleCache m).2⟩
      (beginSync o.server.clearModuleCache m).2 := by
  have haccounts : Accounts fromFunction p {name | name ∈ o.server.exposedRegistry}
      (· ∈ o.server.clearModuleCache.exposedRegistry) (Offering fromFunction p m.desired)
      (staleNames o.server.clearModuleCache.exposedRegistry.keys m)
      (beginSync o.server.clearModuleCache m).1 (beginSync o.server.clearModuleCache m).2 := by
    apply accounts_proceed (List.Sublist.refl _)
    · exact fun _ h => h
    · exact fun _ _ h => h
  refine ⟨rfl, rfl, ?_, hwithin, haccounts.within, ?_, ?_⟩
  · exact Synced.proceed ⟨h.synced.1.withCache .clear, ModuleCache.sound_clear p⟩
  · -- of the booked names, the stale ones are those that are not desired
    intro name hname
    have hstale : name ∉ staleNames o.server.clearModuleCache.exposedRegistry.keys m ↔
        name ∈ m.desired.map ScriptEntry.name := by
      rw [mem_staleNames, not_and, not_not]
      exact ⟨fun h => h hname, fun h _ => h⟩
    rw [and_left_comm, haccounts.old name hname, hstale]
    exact and_congr_right fun _ => and_iff_right hname
  · intro name hname
    rw [or_left_comm, haccounts.new name hname]
    exact or_congr_right (or_iff_right hname)

theorem Sync.Finished.not_raised (h : y.Finished) : ¬ y.Raised := by
  rintro ⟨reason, hraised⟩
  obtain ⟨report, hfinished⟩ := h
  rw [hfinished] at hraised
  cases hraised

theorem Sync.Finished.toWithdraw (h : y.Finished) : y.toWithdraw = [] := by
  obtain ⟨report, hfinished⟩ := h
  rw [Sync.toWithdraw, hfinished]

theorem Sync.Finished.not_offers (h : y.Finished) : ¬ y.Offers fromFunction p name := by
  obtain ⟨report, hfinished⟩ := h
  rw [Sync.Offers, hfinished]
  exact id

/-- When both are done, the book says what was decided. -/
theorem Settling.mem_iff (h : Settling fromFunction p before stays comes o y)
    (hfirst : o.first.Finished) (hsecond : y.Finished) (name : String) :
    name ∈ o.server.exposedRegistry ↔
      name ∈ before ∧ stays name ∨ name ∉ before ∧ comes name := by
  by_cases hname : name ∈ before
  · have hold := h.old name hname
    rw [hfirst.toWithdraw, hsecond.toWithdraw] at hold
    simpa [hname] using hold
  · have hnew := h.new name hname
    rw [or_iff_left hsecond.not_offers, or_iff_left hfirst.not_offers] at hnew
    simpa [hname] using hnew

/-- The book after both syncs, in terms of where they stood at the load. -/
theorem mem_exposedRegistry_iff {p₁ : Project} {m₁ : ScriptManifest}
    (hserver : (exposure fromFunction).Reachable Server.start s)
    (hfirst : (overlap fromFunction).Reachable (Overlap.begun s p₁ m₁) o) {o₁ : Overlap Schema}
    (hreload : (overlap fromFunction).step o (.reload p m) = some o₁)
    (hreach : (overlap fromFunction).Reachable o₁ o') (hdone : o'.Done) :
    Consistent fromFunction o'.server ∧ ∀ name, name ∈ o'.server.exposedRegistry ↔
      name ∈ o.server.exposedRegistry ∧ o.Stays m name ∨
        name ∉ o.server.exposedRegistry ∧ o.Comes fromFunction p m name := by
  simp only [overlap] at hreload
  split at hreload
  · cases hreload
  next hnone =>
  have halone := alone_of_reachable (consistent_of_reachable hserver) hfirst hnone
  have hstart : ∃ y, o₁.second = some y ∧ (o₁.first.Raised ∨ y.Raised ∨
      Settling fromFunction p {name | name ∈ o.server.exposedRegistry} (o.Stays m)
        (o.Comes fromFunction p m) o₁ y) := by
    cases hreload
    exact ⟨_, rfl, halone.within.imp_right fun h => .inr (halone.settling p m h)⟩
  -- a sync that has finished has not raised, so the run has settled
  obtain ⟨hfirstDone, y, hsecond, hsecondDone⟩ := hdone
  obtain ⟨y', hsecond', hend⟩ := settling_of_reachable hstart hreach
  obtain rfl : y = y' := Option.some.inj (hsecond.symm.trans hsecond')
  rcases hend with hraised | hraised | hsettling
  · exact absurd hraised hfirstDone.not_raised
  · exact absurd hraised hsecondDone.not_raised
  · exact ⟨hsettling.synced.1, hsettling.mem_iff hfirstDone hsecondDone⟩

/-- In every interleaving of two syncs with a load in between, once both are done the scripts
with a tool are those that the new manifest wants exactly when what the first sync had before it
at the load was concordant with it. -/
theorem scriptNames_eq_wanted_iff {p₁ : Project} {m₁ : ScriptManifest}
    (hserver : (exposure fromFunction).Reachable Server.start s)
    (hfirst : (overlap fromFunction).Reachable (Overlap.begun s p₁ m₁) o) {o₁ : Overlap Schema}
    (hreload : (overlap fromFunction).step o (.reload p m) = some o₁)
    (hreach : (overlap fromFunction).Reachable o₁ o') (hdone : o'.Done) :
    o'.server.scriptNames = wanted fromFunction p m ↔ Concordant fromFunction o p m := by
  obtain ⟨hconsistent, hbook⟩ := mem_exposedRegistry_iff hserver hfirst hreload hreach hdone
  have hnames : ∀ name, name ∈ o'.server.scriptNames ↔
      name ∈ o.server.exposedRegistry ∧ o.Stays m name ∨
        name ∉ o.server.exposedRegistry ∧ o.Comes fromFunction p m name := fun name =>
    (hconsistent.agrees name).symm.trans (hbook name)
  rw [Set.ext_iff]
  constructor
  · -- each part of the condition is what the equation says of one kind of name
    intro heq
    refine ⟨fun e he hbooked => ?_, fun name hnew hoffers => ?_⟩
    · rw [← heq, hnames]
      simp [hbooked, Overlap.Stays, List.mem_map_of_mem he]
    · exact (heq name).mp ((hnames name).mpr (.inr ⟨hnew, .inl hoffers⟩))
  · rintro ⟨hkept, hadded⟩ name
    rw [hnames]
    constructor
    · rintro (⟨hbooked, hnotWithdrawn, hdesired⟩ | ⟨hnew, hoffers | hwanted⟩)
      · obtain ⟨e, he, rfl⟩ := List.mem_map.mp hdesired
        exact (hkept e he hbooked).mpr hnotWithdrawn
      · exact hadded name hnew hoffers
      · exact hwanted
    · intro hwanted
      by_cases hbooked : name ∈ o.server.exposedRegistry
      · obtain ⟨e, he, rfl, -⟩ := id hwanted
        exact .inl ⟨hbooked, (hkept e he hbooked).mp hwanted, List.mem_map_of_mem he⟩
      · exact .inr ⟨hbooked, .inr hwanted⟩

end Overlapping

section FreshStart

/-- The wanted scripts are those that a server has tools for that is started on the manifest,
unless its start raises. -/
theorem scriptNames_freshStart {report : Report}
    (hok : (syncExposedTools fromFunction p m Server.start).2 = .ok report) :
    (syncExposedTools fromFunction p m Server.start).1.scriptNames = wanted fromFunction p m := by
  ext name
  constructor
  · intro hname
    obtain ⟨t, ht⟩ := Option.isSome_iff_exists.mp (AList.lookup_isSome.mpr hname)
    -- a fresh server has no tool but those of desired entries
    by_cases hdesired : name ∈ m.desired.map ScriptEntry.name
    · obtain ⟨e, he, rfl⟩ := List.mem_map.mp hdesired
      exact ⟨e, he, rfl, t, exposedTool_of_freshStart he ht⟩
    · have hnone := congrArg Prod.snd (slot_sync_of_undesired consistent_start
        (ModuleCache.sound_clear p) hok hdesired)
      cases ht.symm.trans hnone
  · rintro ⟨e, he, rfl, t, ht⟩
    have hslot := congrArg Prod.snd
      (slot_sync_of_desired consistent_start (ModuleCache.sound_clear p) hok he)
    have htool := syncEffect_tool List.not_mem_nil (m.status_of_mem_desired he) ht
    exact AList.lookup_isSome.mp (Option.isSome_iff_exists.mpr ⟨t, hslot.trans htool⟩)

end FreshStart

section Probe

def probedManifest : ScriptManifest := ⟨[syncProbe], by decide⟩

/-- The first sync waits for the check of its only script. -/
def probedOverlap : Overlap Unit := Overlap.begun Server.start plainProject probedManifest

/-- The manifest is loaded again, and the second sync runs on as far as it can. -/
def reloadedOverlap (m : ScriptManifest) : Overlap Unit :=
  ⟨(beginSync probedOverlap.server.clearModuleCache m).1, plainProject, probedOverlap.first,
    some (beginSync probedOverlap.server.clearModuleCache m).2⟩

/-- The second script is added while the first sync waits for a check. Both syncs check the
first script, and only one of them registers it. -/
theorem scriptNames_extended :
    ∃ o : Overlap Unit, (overlap anySchema).Reachable (reloadedOverlap extendedManifest) o ∧
      o.server.scriptNames = wanted anySchema plainProject extendedManifest := by
  have hconcordant : Concordant anySchema probedOverlap plainProject extendedManifest := by
    refine ⟨fun e _ hbooked => ?_, fun name _ hoffers => ?_⟩
    · cases hbooked
    · -- the first sync has only the script before it that both manifests have
      obtain ⟨e, he, hname, htool⟩ := hoffers
      obtain rfl : e = syncProbe := List.mem_singleton.mp he
      exact ⟨syncProbe, List.mem_cons_self, hname, htool⟩
  have hfirst : (overlap anySchema).Reachable
      (Overlap.begun Server.start plainProject probedManifest) probedOverlap := .refl
  have hrun := Machine.reachable_of_run (m := overlap anySchema)
    (s := reloadedOverlap extendedManifest)
    [.first .check, .second .check, .first .resume, .second .resume, .second .check,
      .second .resume] rfl
  exact ⟨_, hrun, (scriptNames_eq_wanted_iff .refl hfirst rfl hrun
    ⟨⟨_, rfl⟩, _, rfl, _, rfl⟩).mpr hconcordant⟩

/-- The script is taken off the manifest while the first sync waits for its check. The second
sync ends at once, and the first one registers the script after it. -/
theorem not_scriptNames_emptied :
    ¬ ∀ (s : Server Unit) (p₁ p : Project) (m₁ m : ScriptManifest) (o o₁ o' : Overlap Unit),
      (exposure anySchema).Reachable Server.start s →
      (overlap anySchema).Reachable (Overlap.begun s p₁ m₁) o →
      (overlap anySchema).step o (.reload p m) = some o₁ →
      (overlap anySchema).Reachable o₁ o' → o'.Done →
      o'.server.scriptNames = wanted anySchema p m := by
  intro h
  have hrun := Machine.reachable_of_run (m := overlap anySchema) (s := reloadedOverlap .empty)
    [.first .check, .first .resume] rfl
  have heq := h Server.start plainProject plainProject probedManifest .empty probedOverlap _ _
    .refl .refl rfl hrun ⟨⟨_, rfl⟩, _, rfl, _, rfl⟩
  have hname : "sync_probe" ∈ wanted anySchema plainProject ScriptManifest.empty := by
    rw [← heq]
    exact (AList.lookup_isSome).mp rfl
  obtain ⟨e, he, -⟩ := hname
  cases he

end Probe

end Scripts
