import PpssppDfx.Python.Value
import PpssppDfx.Semantics.Machine
import PpssppDfx.Semantics.KeyedTable
import PpssppDfx.Session.Store

/-!
# Where a session comes from

The loader marks every session that it reads as restored, and a save leaves the mark out. A
start clears the mark in the session that it returns and in the table that it saves, which
the save does not write. Every reader loads the table from the file, so every session in it is
marked, those of the running process as well.

The machine is one server process. Its tables are those of the other modules with the
remaining metadata of each session beside its record; `recovered`, which the record holds, is
left out of the metadata. What a section sees of the manager in memory comes with its label.

## Main definitions

* `Session.Snapshot` — a session with its metadata
* `Session.loadTable`, `Session.saveTable` — `_load_sessions` and `_save_sessions`
* `Session.Provenance` — the mark says whether the process started the session

## Main results

* `records_modifyTable` — the sections change the records as they do in the other modules
* `provenance_iff` — the mark is right exactly when the process started none of the sessions
-/

set_option autoImplicit false

namespace Session

open Python Semantics

/-! ## The file -/

/-- `extra`: metadata by name. -/
abbrev Extra := KeyedTable String Value

/-- A session in memory. -/
structure Snapshot where
  record : Record
  wsUrl : Value
  extra : Extra

/-- A value of the object in `sessions.json`. -/
inductive Entry where
  | notObject
  /-- A required field is missing or `extra` is no mapping: a `TypeError`. -/
  | misfit
  | session (s : Snapshot)

/-- `bool(sess.extra.get("restored"))`. -/
def Snapshot.restored (s : Snapshot) : Bool :=
  match s.extra.lookup "restored" with
  | none => false
  | some mark => mark.truthy

/-- The session that the loader makes of an entry; `admits` is the allowlist of debugger
addresses, with the sentinel of the fake mode. -/
def loadEntry (admits : Value → Bool) : Entry → Option Snapshot
  | .notObject => none
  | .misfit => none
  | .session s =>
    -- the loader cannot tell who saved the entry, and marks every one
    if admits s.wsUrl then some { s with extra := s.extra.insert "restored" (.bool true) }
    else none

/-- `_load_sessions`: `none` if it raises. -/
def loadTable (admits : Value → Bool) (file : KeyedTable SessionId Entry) :
    Read → Option (KeyedTable SessionId Snapshot)
  | .ok => some (file.filterMap (loadEntry admits))
  | .missing | .osError | .malformed | .notDict => some ∅
  | .undecodable => none

/-- `_session_to_dict`. -/
def sessionToDict (s : Snapshot) : Entry :=
  .session { s with extra := s.extra.erase "restored" }

/-- The file that `_save_sessions` writes. -/
def saveTable (table : KeyedTable SessionId Snapshot) : KeyedTable SessionId Entry :=
  table.mapValues sessionToDict

/-! ## Sections -/

/-- The records of a table. -/
def records (table : KeyedTable SessionId Snapshot) : Sessions := table.mapValues Snapshot.record

/-- The new metadata of a session that the transport was bound to: the version of the
emulator, and no mark. -/
def Extra.bound (extra : Extra) (version : Value) : Extra :=
  AList.insert "restored" (.bool false) (AList.insert "ppsspp_version" version extra)

/-- What a section writes for the table that it has read, as `Edit.modify` for the records.
A new session has the debugger address `wsUrl` and no metadata. -/
def Edit.modifyTable (m : Manager) (wsUrl version : Value) :
    Edit → KeyedTable SessionId Snapshot → Option (KeyedTable SessionId Snapshot)
  | .persist sid record, table =>
    if portConflict m (records table) sid record.port then none
    else some (table.insert sid ⟨record, wsUrl, ∅⟩)
  | .markConnected sid record, table =>
    -- the coroutine's own copy, which it made before it first saved
    if sid ∈ table then some (table.insert sid ⟨record, wsUrl, ∅⟩) else none
  | .bind sid, table =>
    (table.lookup sid).map fun s => table.insert sid { s with extra := s.extra.bound version }
  | .fold sid attempt, table =>
    (table.lookup sid).map fun s =>
      table.insert sid
        { s with
          record := { s.record with recovered := some attempt }
          extra := s.extra.bound version }
  | .discard sid, table => if sid ∈ table then some (table.erase sid) else none
  | .touch sid live, table =>
    (table.lookup sid).map fun s =>
      let touched := s.record.withUpdatedActivity m.now
      table.insert sid
        { s with
          record := if (m.transports sid).isSome then touched.withWsConnected live else touched }
  | .updateWsConnected sid connected, table =>
    (table.lookup sid).map fun s =>
      table.insert sid { s with record := s.record.withWsConnected connected }
  | .stop sid, table => some (table.erase sid)
  | .gc reclaimed, table => some (reclaimed.foldl (fun table sid => table.erase sid) table)

/-- A section that writes the table. -/
inductive Section where
  | edit (m : Manager) (e : Edit) (wsUrl version : Value)
  /-- `start_session` in fake mode, without a process and without a look at the ports. -/
  | startFake (sid : SessionId) (record : Record)

namespace Section

def modify : Section → KeyedTable SessionId Snapshot → Option (KeyedTable SessionId Snapshot)
  | .edit m e wsUrl version, table => e.modifyTable m wsUrl version table
  | .startFake sid record, table =>
    some (table.insert sid ⟨{ record with pid := none }, .str "fake://test", ∅⟩)

/-- The session that the section starts. -/
def starts : Section → List SessionId
  | .edit _ (.persist sid _) _ _ => [sid]
  | .startFake sid _ => [sid]
  | _ => []

end Section

/-! ## The process -/

/-- The file, the saves of cancelled operations whose thread still runs, and the sessions that
the process has started. -/
structure Process where
  file : KeyedTable SessionId Entry
  pending : List (KeyedTable SessionId Entry)
  started : List SessionId

inductive ProcessEvent where
  /-- A section, with the allowlist and the ends of its read and of its save. -/
  | runs (s : Section) (admits : Value → Bool) (read : Read) (save : Save)
  /-- A save that outlived its operation reaches the file. -/
  | lands (k : ℕ)

namespace Process

/-- A save of the table that the section has made. -/
def commit (p : Process) (table : KeyedTable SessionId Snapshot) : Save → Process
  | .done => { p with file := saveTable table }
  | .raises => p
  | .cancelled landed =>
    if landed then { p with file := saveTable table }
    else { p with pending := p.pending ++ [saveTable table] }

def step (p : Process) : ProcessEvent → Option Process
  | .runs s admits read save =>
    let p := { p with started := p.started ++ s.starts }
    match loadTable admits p.file read with
    | none => some p
    | some table =>
      match s.modify table with
      | none => some p
      | some table => some (p.commit table save)
  | .lands k =>
    (p.pending[k]?).map fun file => { p with file, pending := p.pending.eraseIdx k }

end Process

def process : Machine Process ProcessEvent := ⟨Process.step⟩

/-- A new process, with the file that the earlier ones have left. -/
def Process.boot (file : KeyedTable SessionId Entry) : Process := ⟨file, [], []⟩

/-- A session of the table is marked as restored if and only if the process has not started
it, and then it was in the file that the earlier processes have left. -/
def Provenance (file : KeyedTable SessionId Entry) (started : List SessionId)
    (table : KeyedTable SessionId Snapshot) : Prop :=
  ∀ sid s, table.lookup sid = some s →
    (s.restored = true ↔ sid ∉ started) ∧ (sid ∉ started → sid ∈ file)

section Tables

variable {m : Manager} {edit : Edit} {wsUrl version : Value} {admits : Value → Bool} {read : Read}
  {file : KeyedTable SessionId Entry} {table edited : KeyedTable SessionId Snapshot}
  {s : Snapshot} {sid : SessionId}

/-! ### Records -/

@[simp] theorem lookup_records : (records table).lookup sid = (table.lookup sid).map Snapshot.record :=
  KeyedTable.lookup_mapValues _ _ _

@[simp] theorem mem_records : sid ∈ records table ↔ sid ∈ table := KeyedTable.mem_mapValues _

@[simp] theorem records_insert :
    records (AList.insert sid s table) = AList.insert sid s.record (records table) :=
  KeyedTable.mapValues_insert _ _ _ _

@[simp] theorem records_erase : records (AList.erase sid table) = AList.erase sid (records table) :=
  KeyedTable.mapValues_erase _ _ _

theorem records_foldl_erase (sids : List SessionId) (table : KeyedTable SessionId Snapshot) :
    records (sids.foldl (fun table sid => table.erase sid) table) =
      sids.foldl (fun table sid => table.erase sid) (records table) := by
  induction sids generalizing table with
  | nil => rfl
  | cons sid sids ih => rw [List.foldl_cons, List.foldl_cons, ih, records_erase]

/-- The sections change the records as the sections of the record tables do. -/
theorem records_modifyTable :
    (edit.modifyTable m wsUrl version table).map records = edit.modify m (records table) := by
  cases edit with
  | persist own record =>
    simp only [Edit.modifyTable, Edit.modify]
    split
    · rfl
    · exact congrArg some records_insert
  | markConnected own record =>
    simp only [Edit.modifyTable, Edit.modify, mem_records]
    split
    · exact congrArg some records_insert
    · rfl
  | discard own =>
    simp only [Edit.modifyTable, Edit.modify, mem_records]
    split
    · exact congrArg some records_erase
    · rfl
  | stop own => exact congrArg some records_erase
  | gc reclaimed => exact congrArg some (records_foldl_erase reclaimed table)
  | bind own | fold own attempt | touch own live | updateWsConnected own connected =>
    simp only [Edit.modifyTable, Edit.modify, lookup_records, Option.map_map]
    cases table.lookup own with
    | none => rfl
    | some s => exact congrArg some records_insert

/-! ### Loading and saving -/

/-- Whatever the file says of a session, the loader marks it. -/
theorem restored_of_loadEntry {e : Entry} (h : loadEntry admits e = some s) :
    s.restored = true := by
  cases e with
  | notObject => cases h
  | misfit => cases h
  | session stored =>
    simp only [loadEntry] at h
    split at h
    · cases h
      simp only [Snapshot.restored, AList.lookup_insert]
      rfl
    · cases h

/-- A loaded session comes from an entry of the file. -/
theorem exists_entry_of_loadTable (h : loadTable admits file read = some table)
    (hs : table.lookup sid = some s) :
    ∃ e, file.lookup sid = some e ∧ loadEntry admits e = some s := by
  cases read with
  | ok =>
    cases h
    rw [KeyedTable.lookup_filterMap] at hs
    exact Option.bind_eq_some_iff.mp hs
  | undecodable => cases h
  | missing | osError | malformed | notDict =>
    cases h
    exact absurd hs (by simp)

/-- The mark is not written. -/
theorem restored_not_saved (h : (saveTable table).lookup sid = some (.session s)) :
    s.extra.lookup "restored" = none := by
  rw [saveTable, KeyedTable.lookup_mapValues, Option.map_eq_some_iff] at h
  obtain ⟨before, -, hsaved⟩ := h
  obtain rfl := Entry.session.inj hsaved
  exact AList.lookup_erase _ _

/-- A session that is saved and loaded again is marked, also where it was saved without. -/
theorem lookup_load_save (hload : loadTable admits (saveTable table) .ok = some edited)
    (hs : table.lookup sid = some s) (hadmits : admits s.wsUrl = true) :
    ∃ s', edited.lookup sid = some s' ∧ s'.restored = true ∧ s'.record = s.record := by
  cases hload
  have hloaded : (KeyedTable.filterMap (loadEntry admits) (saveTable table)).lookup sid =
      loadEntry admits (sessionToDict s) := by
    rw [KeyedTable.lookup_filterMap, saveTable, KeyedTable.lookup_mapValues, hs]
    rfl
  have hentry : loadEntry admits (sessionToDict s) =
      some { s with extra := (s.extra.erase "restored").insert "restored" (.bool true) } := by
    simp only [sessionToDict, loadEntry, hadmits, if_true]
  exact ⟨_, hloaded.trans hentry, restored_of_loadEntry hentry, rfl⟩

/-! ### Keys -/

theorem mem_foldl_erase {sids : List SessionId}
    (h : sid ∈ sids.foldl (fun table sid => table.erase sid) table) : sid ∈ table := by
  induction sids generalizing table with
  | nil => exact h
  | cons first rest ih => exact (AList.mem_erase.mp (ih h)).2

/-- A section adds no session but the one that it starts. -/
theorem mem_of_modify {sect : Section} (h : sect.modify table = some edited)
    (hsid : sid ∈ edited) : sid ∈ table ∨ sid ∈ sect.starts := by
  cases sect with
  | startFake own record =>
    cases h
    rcases (AList.mem_insert _).mp hsid with rfl | hmem
    · exact Or.inr List.mem_cons_self
    · exact Or.inl hmem
  | edit m e wsUrl version =>
    simp only [Section.modify] at h
    cases e with
    | persist own record =>
      simp only [Edit.modifyTable] at h
      split at h <;> cases h
      rcases (AList.mem_insert _).mp hsid with rfl | hmem
      · exact Or.inr List.mem_cons_self
      · exact Or.inl hmem
    | markConnected own record =>
      simp only [Edit.modifyTable] at h
      split at h <;> cases h
      rcases (AList.mem_insert _).mp hsid with rfl | hmem
      · exact Or.inl (by assumption)
      · exact Or.inl hmem
    | discard own =>
      simp only [Edit.modifyTable] at h
      split at h <;> cases h
      exact Or.inl (AList.mem_erase.mp hsid).2
    | stop own =>
      cases h
      exact Or.inl (AList.mem_erase.mp hsid).2
    | gc reclaimed =>
      cases h
      exact Or.inl (mem_foldl_erase hsid)
    | bind own | fold own attempt | touch own live | updateWsConnected own connected =>
      obtain ⟨before, hbefore, rfl⟩ := Option.map_eq_some_iff.mp h
      rcases (AList.mem_insert _).mp hsid with rfl | hmem
      · exact Or.inl (AList.lookup_isSome.mp (by rw [hbefore]; rfl))
      · exact Or.inl hmem

theorem mem_of_loadTable (h : loadTable admits file read = some table) (hsid : sid ∈ table) :
    sid ∈ file := by
  obtain ⟨s, hs⟩ := Option.isSome_iff_exists.mp (AList.lookup_isSome.mpr hsid)
  obtain ⟨e, he, -⟩ := exists_entry_of_loadTable h hs
  exact AList.lookup_isSome.mp (by rw [he]; rfl)

end Tables

/-! ## Runs -/

section Runs

variable {left : KeyedTable SessionId Entry} {p q : Process} {admits : Value → Bool} {read : Read}
  {save : Save} {table : KeyedTable SessionId Snapshot}

/-- Every session of the file, and of a save that is still running, was started by the
process or left behind by an earlier one. -/
def Process.Inherits (left : KeyedTable SessionId Entry) (p : Process) : Prop :=
  ∀ file, file = p.file ∨ file ∈ p.pending → ∀ sid ∈ file, sid ∈ p.started ∨ sid ∈ left

theorem Process.inherits_boot : (Process.boot left).Inherits left := by
  rintro file (rfl | hpending) sid hsid
  · exact Or.inr hsid
  · cases hpending

theorem Process.Inherits.commit (h : p.Inherits left)
    (htable : ∀ sid ∈ table, sid ∈ p.started ∨ sid ∈ left) : (p.commit table save).Inherits left := by
  have hsaved : ∀ sid ∈ saveTable table, sid ∈ p.started ∨ sid ∈ left :=
    fun sid hsid => htable sid ((KeyedTable.mem_mapValues _).mp hsid)
  have hlands : Process.Inherits left { p with file := saveTable table } := by
    rintro file (rfl | hpending)
    · exact hsaved
    · exact h file (Or.inr hpending)
  cases save with
  | done => exact hlands
  | raises => exact h
  | cancelled landed =>
    cases landed with
    | true => exact hlands
    | false =>
      rintro file (rfl | hpending)
      · exact h _ (Or.inl rfl)
      · rcases List.mem_append.mp hpending with hpending | hnew
        · exact h file (Or.inr hpending)
        · obtain rfl := List.mem_singleton.mp hnew
          exact hsaved

theorem Process.Inherits.step {e : ProcessEvent} (h : p.Inherits left)
    (hstep : process.step p e = some q) : q.Inherits left := by
  cases e with
  | lands k =>
    obtain ⟨file, hfile, rfl⟩ := Option.map_eq_some_iff.mp hstep
    rintro other (rfl | hpending)
    · exact h _ (Or.inr (List.mem_of_getElem? hfile))
    · exact h other (Or.inr (List.mem_of_mem_eraseIdx hpending))
  | runs sect admits read save =>
    have hstarted : Process.Inherits left { p with started := p.started ++ sect.starts } :=
      fun file hfile sid hsid => (h file hfile sid hsid).imp_left (List.mem_append_left _)
    simp only [process, Process.step] at hstep
    cases hload : loadTable admits p.file read with
    | none =>
      rw [hload] at hstep
      cases hstep
      exact hstarted
    | some loaded =>
      rw [hload] at hstep
      dsimp only at hstep
      cases hmodify : sect.modify loaded with
      | none =>
        rw [hmodify] at hstep
        cases hstep
        exact hstarted
      | some edited =>
        rw [hmodify] at hstep
        cases hstep
        refine hstarted.commit fun sid hsid => ?_
        rcases mem_of_modify hmodify hsid with hmem | hstarts
        · exact hstarted _ (Or.inl rfl) sid (mem_of_loadTable hload hmem)
        · exact Or.inl (List.mem_append_right _ hstarts)

theorem Process.inherits_of_reachable (h : process.Reachable (.boot left) p) : p.Inherits left :=
  Machine.Reachable.invariant Process.inherits_boot (fun _ _ _ => Process.Inherits.step) h

/-- In every reachable state, and however the table is read: the marks are right exactly when
the process started none of the sessions of the table. -/
theorem provenance_iff (h : process.Reachable (.boot left) p)
    (hload : loadTable admits p.file read = some table) :
    Provenance left p.started table ↔ ∀ sid ∈ table, sid ∉ p.started := by
  constructor
  -- what has been read is marked, so it must not be a session of the process
  · intro hmarks sid hsid
    obtain ⟨s, hs⟩ := Option.isSome_iff_exists.mp (AList.lookup_isSome.mpr hsid)
    obtain ⟨e, -, he⟩ := exists_entry_of_loadTable hload hs
    exact (hmarks sid s hs).1.mp (restored_of_loadEntry he)
  · intro hnone sid s hs
    have hsid : sid ∈ table := AList.lookup_isSome.mp (by rw [hs]; rfl)
    obtain ⟨e, -, he⟩ := exists_entry_of_loadTable hload hs
    refine ⟨iff_of_true (restored_of_loadEntry he) (hnone sid hsid), fun hforeign => ?_⟩
    exact (Process.inherits_of_reachable h _ (Or.inl rfl) sid
      (mem_of_loadTable hload hsid)).resolve_left hforeign

/-- A session on the default port. -/
def oneSession : Snapshot :=
  ⟨⟨some 4711, 12345, 0, 0, false, none⟩, .str "ws://127.0.0.1:12345/debugger", ∅⟩

/-- The table with this session. -/
def oneTable : KeyedTable SessionId Snapshot := AList.insert 1 oneSession ∅

/-- What is read right after the process has come up is an earlier process's session. -/
theorem provenance_leftBehind :
    Provenance (saveTable oneTable) []
      (KeyedTable.filterMap (loadEntry fun _ => true) (saveTable oneTable)) := by
  have hload : loadTable (fun _ => true) (saveTable oneTable) .ok =
      some (KeyedTable.filterMap (loadEntry fun _ => true) (saveTable oneTable)) := rfl
  exact (provenance_iff (p := .boot (saveTable oneTable)) .refl hload).mpr
    fun _ _ => List.not_mem_nil

/-- A manager that has nothing in memory. -/
def emptyManager : Manager :=
  { sessions := ∅, launchers := fun _ => none, transports := fun _ => none
    observers := fun _ => none, sessionLocks := fun _ => none, locks := fun _ => .free
    nextLock := 0, procs := fun _ => .unborn, nextLauncher := 0, workers := [], now := 0
    stopped := [] }

/-- The process starts a session, and finds it marked as restored. -/
theorem not_provenance_started :
    ∃ p table, process.Reachable (.boot ∅) p ∧ loadTable (fun _ => true) p.file .ok = some table ∧
      ¬ Provenance ∅ p.started table := by
  have hstep : process.step (.boot ∅)
      (.runs (.edit emptyManager (.persist 1 oneSession.record) oneSession.wsUrl .none)
        (fun _ => true) .missing .done) = some ⟨saveTable oneTable, [], [1]⟩ := rfl
  have hreach : process.Reachable (.boot ∅) ⟨saveTable oneTable, [], [1]⟩ := .single trivial hstep
  have hload : loadTable (fun _ => true) (saveTable oneTable) .ok =
      some (KeyedTable.filterMap (loadEntry fun _ => true) (saveTable oneTable)) := rfl
  have hone : oneTable.lookup 1 = some oneSession := AList.lookup_insert _
  refine ⟨_, _, hreach, hload, fun hmarks => ?_⟩
  obtain ⟨s, hs, hmarked, -⟩ := lookup_load_save hload hone rfl
  exact (hmarks 1 s hs).1.mp hmarked List.mem_cons_self

end Runs

end Session
