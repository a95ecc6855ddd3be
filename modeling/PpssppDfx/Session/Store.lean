import PpssppDfx.Session.Coroutines
import PpssppDfx.Session.Start

/-!
# The session store

Every section under the manager's lock reads the whole table, edits one record or a few, and
writes the whole table back. A read that fails does not end most sections: `_load_sessions`
falls back to an empty table, and a section that edits the empty table writes it.

## Main definitions

* `Session.loadSessions` — `_load_sessions`, with the ways in which a read ends
* `Session.Edit` — what the sections of the manager do to the table
* `Session.Manager.runEdit` — a section

## Main results

* `keepsOthers_iff` — a section keeps the records of the other sessions, unless it saves a
  table that it did not read
* `read_failure_wipes` — a stop that does
-/

set_option autoImplicit false

namespace Session

/-! ## Reading the table -/

/-- How a read of `sessions.json` ends. -/
inductive Read where
  | ok
  /-- The file is not found. -/
  | missing
  /-- The file cannot be opened or read. -/
  | osError
  /-- The text is not JSON. -/
  | malformed
  /-- The JSON value is not an object. -/
  | notDict
  /-- The bytes are not UTF-8. `UnicodeDecodeError` is no `JSONDecodeError`. -/
  | undecodable
  deriving DecidableEq

/-- `_load_sessions` of a file that holds this table: `none` if it raises. -/
def loadSessions (file : Sessions) : Read → Option Sessions
  | .ok => some file
  | .missing => some ∅
  | .osError => some ∅
  | .malformed => some ∅
  | .notDict => some ∅
  | .undecodable => none

/-- The read failed, and `_load_sessions` returns an empty table. -/
def Read.fallsBack : Read → Bool
  | .ok => false
  | .undecodable => false
  | _ => true

theorem loadSessions_of_fallsBack {file : Sessions} {read : Read} (h : read.fallsBack = true) :
    loadSessions file read = some ∅ := by
  cases read <;> simp_all [Read.fallsBack, loadSessions]

theorem eq_of_loadSessions {file sessions : Sessions} {read : Read}
    (h : loadSessions file read = some sessions) (hread : read.fallsBack = false) :
    sessions = file := by
  cases read <;> simp_all [Read.fallsBack, loadSessions]

/-- How `_save_sessions` ends. Its last call replaces the file, so one that raises has not. -/
inductive Save where
  | done
  | raises
  /-- The coroutine is cancelled; the thread replaces the file or does not. -/
  | cancelled (landed : Bool)
  deriving DecidableEq

def Save.lands : Save → Bool
  | .done => true
  | .raises => false
  | .cancelled landed => landed

/-! ## Edits -/

/-- The load-modify-save sections of the manager. -/
inductive Edit where
  /-- `_start_once` saves the record of a new attempt. -/
  | persist (sid : SessionId) (record : Record)
  /-- `_start_once` saves its own copy of the record, marked as connected. -/
  | markConnected (sid : SessionId) (record : Record)
  /-- `_start_once` registers the transport and the observer. -/
  | bind (sid : SessionId)
  /-- `_gate_boot` folds the attempt into the record. -/
  | fold (sid : SessionId) (attempt : ℕ)
  /-- `_discard_session_entry`. -/
  | discard (sid : SessionId)
  /-- `touch_session`, with what the transport reports of its connection. -/
  | touch (sid : SessionId) (live : Bool)
  /-- `update_ws_connected`. -/
  | updateWsConnected (sid : SessionId) (connected : Bool)
  /-- Phase 3 of `stop_session`. -/
  | stop (sid : SessionId)
  /-- Phase 3 of `gc_idle_sessions`. -/
  | gc (reclaimed : List SessionId)

namespace Edit

/-- What the section writes for the table it has read: `none` if it returns or raises
before it writes. -/
def modify (m : Manager) : Edit → Sessions → Option Sessions
  | .persist sid record, sessions =>
    if portConflict m sessions sid record.port then none else some (sessions.insert sid record)
  -- the start writes its own copy over what others have saved since
  | .markConnected sid record, sessions =>
    if sid ∈ sessions then some (sessions.insert sid record) else none
  | .bind sid, sessions => (sessions.lookup sid).map fun r => sessions.insert sid r
  | .fold sid attempt, sessions =>
    (sessions.lookup sid).map fun r => sessions.insert sid { r with recovered := some attempt }
  | .discard sid, sessions => if sid ∈ sessions then some (sessions.erase sid) else none
  | .touch sid live, sessions =>
    (sessions.lookup sid).map fun r =>
      let touched := r.withUpdatedActivity m.now
      sessions.insert sid
        (if (m.transports sid).isSome then touched.withWsConnected live else touched)
  | .updateWsConnected sid connected, sessions =>
    (sessions.lookup sid).map fun r => sessions.insert sid (r.withWsConnected connected)
  | .stop sid, sessions => some (sessions.erase sid)
  | .gc reclaimed, sessions => some (reclaimed.foldl (fun table sid => table.erase sid) sessions)

/-- The sessions that the section is about. -/
def operatedOn : Edit → List SessionId
  | .persist sid _ => [sid]
  | .markConnected sid _ => [sid]
  | .bind sid => [sid]
  | .fold sid _ => [sid]
  | .discard sid => [sid]
  | .touch sid _ => [sid]
  | .updateWsConnected sid _ => [sid]
  | .stop sid => [sid]
  | .gc reclaimed => reclaimed

/-- The section writes whatever it has read: it does not look for a record of its session
first. -/
def savesBlindly : Edit → Bool
  | .persist _ _ => true
  | .stop _ => true
  | .gc _ => true
  | _ => false

end Edit

/-! ## Sections -/

namespace Manager

/-- `update_ws_connected`. -/
def updateWsConnected (m : Manager) (sid : SessionId) (connected : Bool) :
    Io → Manager × SectionResult :=
  m.updateSessions fun sessions =>
    (sessions.lookup sid).map fun r => sessions.insert sid (r.withWsConnected connected)

/-- A section, with the ends of its read and of its save. -/
def runEdit (m : Manager) (edit : Edit) (read : Read) (save : Save) : Manager :=
  match loadSessions m.sessions read with
  | none => m
  | some sessions =>
    match edit.modify m sessions with
    | none => m
    | some sessions => if save.lands then m.save sessions else m

end Manager

/-- The ends of a section as the coroutines see them. -/
def Save.io (reads : Bool) : Save → Io
  | .done => .done reads
  | .raises => .saveRaises reads
  | .cancelled landed => .cutSaving reads landed

section Sections

variable {m : Manager} {t : Start} {g : Gc} {edit : Edit} {read : Read} {save : Save} {io : Io}
  {sid : SessionId} {live connected : Bool} {port : ℕ} {sessions edited : Sessions}

/-- The sections of the coroutines are these. -/
theorem runEdit_eq_updateSessions (hread : read ≠ .undecodable) :
    m.runEdit edit read save =
      (m.updateSessions (edit.modify m) (save.io (decide (read = .ok)))).1 := by
  have hload : loadSessions m.sessions read = some (m.load (decide (read = .ok))) := by
    cases read <;> first | rfl | exact absurd rfl hread
  rw [Manager.runEdit, hload]
  rcases hmodify : edit.modify m (m.load (decide (read = .ok))) with _ | edited
  · cases save <;> simp [Save.io, Manager.updateSessions, hmodify]
  · cases save with
    | done => simp [Save.io, Manager.updateSessions, Save.lands, hmodify]
    | raises => simp [Save.io, Manager.updateSessions, Save.lands, hmodify]
    | cancelled landed =>
      simp only [Save.io, Manager.updateSessions, hmodify]
      rfl

theorem touchSession_eq :
    m.touchSession sid live io = m.updateSessions ((Edit.touch sid live).modify m) io := rfl

theorem updateWsConnected_eq : m.updateWsConnected sid connected io =
    m.updateSessions ((Edit.updateWsConnected sid connected).modify m) io := rfl

/-! ## Other sessions -/

theorem lookup_foldl_erase (sids : List SessionId) (table : Sessions) (sid : SessionId) :
    (sids.foldl (fun table sid => table.erase sid) table).lookup sid =
      if sid ∈ sids then none else table.lookup sid := by
  induction sids generalizing table with
  | nil => rfl
  | cons first rest ih =>
    rw [List.foldl_cons, ih]
    by_cases hrest : sid ∈ rest
    · rw [if_pos hrest, if_pos (List.mem_cons_of_mem _ hrest)]
    · rw [if_neg hrest]
      by_cases hfirst : sid = first
      · subst hfirst
        rw [if_pos List.mem_cons_self, AList.lookup_erase]
      · rw [if_neg (by simp [hfirst, hrest]), AList.lookup_erase_ne hfirst]

/-- An edit leaves the other records of the table that it was given. -/
theorem lookup_modify (h : edit.modify m sessions = some edited) (hsid : sid ∉ edit.operatedOn) :
    edited.lookup sid = sessions.lookup sid := by
  cases edit with
  | persist own record =>
    simp only [Edit.modify] at h
    split at h <;> cases h
    exact AList.lookup_insert_ne (by simpa [Edit.operatedOn] using hsid)
  | markConnected own record =>
    simp only [Edit.modify] at h
    split at h <;> cases h
    exact AList.lookup_insert_ne (by simpa [Edit.operatedOn] using hsid)
  | discard own =>
    simp only [Edit.modify] at h
    split at h <;> cases h
    exact AList.lookup_erase_ne (by simpa [Edit.operatedOn] using hsid)
  | stop own =>
    cases h
    exact AList.lookup_erase_ne (by simpa [Edit.operatedOn] using hsid)
  | gc reclaimed =>
    cases h
    have hnot : sid ∉ reclaimed := hsid
    rw [lookup_foldl_erase, if_neg hnot]
  | bind own | fold own attempt | touch own live | updateWsConnected own connected =>
    obtain ⟨r, -, rfl⟩ := Option.map_eq_some_iff.mp h
    exact AList.lookup_insert_ne (by simpa [Edit.operatedOn] using hsid)

/-- An edit of the empty table is saved by the sections that save blindly. -/
theorem isSome_modify_empty : (edit.modify m ∅).isSome = edit.savesBlindly := by
  cases edit <;> simp [Edit.modify, Edit.savesBlindly, portConflict]

/-- A section keeps the records of the other sessions if and only if it does not save a table
that it failed to read, or there are none. -/
theorem keepsOthers_iff (m : Manager) (edit : Edit) (read : Read) (save : Save) :
    (∀ sid ∈ m.sessions, sid ∉ edit.operatedOn →
      (m.runEdit edit read save).sessions.lookup sid = m.sessions.lookup sid) ↔
    (read.fallsBack = true → edit.savesBlindly = true → save.lands = true →
      ∀ sid ∈ m.sessions, sid ∈ edit.operatedOn) := by
  constructor
  · intro hkeeps hread hblind hlands sid hsid
    -- a section that saves blindly turns the empty table into one without the other sessions
    by_contra hother
    have hload := (loadSessions_of_fallsBack hread : loadSessions m.sessions read = some ∅)
    obtain ⟨edited, hedited⟩ : ∃ edited, edit.modify m ∅ = some edited :=
      Option.isSome_iff_exists.mp (isSome_modify_empty.trans hblind)
    have hafter : (m.runEdit edit read save).sessions = edited := by
      simp only [Manager.runEdit, hload, hedited, hlands, if_true]
      rfl
    have hlost := lookup_modify hedited hother
    rw [AList.lookup_empty, ← hafter, hkeeps sid hsid hother] at hlost
    exact AList.lookup_eq_none.mp hlost hsid
  · intro hcond sid hsid hother
    rcases hload : loadSessions m.sessions read with _ | sessions
    · simp only [Manager.runEdit, hload]
    rcases hmodify : edit.modify m sessions with _ | edited
    · simp only [Manager.runEdit, hload, hmodify]
    by_cases hlands : save.lands = true
    · have hafter : (m.runEdit edit read save).sessions = edited := by
        simp only [Manager.runEdit, hload, hmodify, hlands, if_true]
        rfl
      rw [hafter, lookup_modify hmodify hother]
      by_cases hread : read.fallsBack = true
      · -- An edit of the empty table is saved blindly, which the condition excludes.
        obtain rfl : ∅ = sessions := Option.some.inj
          ((loadSessions_of_fallsBack hread).symm.trans hload)
        have hblind : edit.savesBlindly = true := by
          rw [← isSome_modify_empty (m := m), hmodify]
          rfl
        exact absurd (hcond hread hblind hlands sid hsid) hother
      · have hsame : sessions = m.sessions := by
          cases read <;> first | exact absurd rfl hread | exact (Option.some.inj hload).symm |
            exact nomatch hload
        rw [hsame]
    · simp only [Manager.runEdit, hload, hmodify, hlands]
      rfl

/-- A stop whose last read fails leaves an empty table. -/
theorem read_failure_wipes :
    ¬ ∀ (m : Manager) (edit : Edit) (read : Read) (save : Save), read ≠ .ok →
      ∀ sid ∈ m.sessions, sid ∉ edit.operatedOn → sid ∈ (m.runEdit edit read save).sessions := by
  intro hall
  -- two sessions, and a stop of the first
  let record : Record := ⟨none, 12345, 0, 0, false, none⟩
  let table : Sessions := ((∅ : Sessions).insert 1 record).insert 2 record
  let m : Manager :=
    { sessions := table, launchers := fun _ => none, transports := fun _ => none
      observers := fun _ => none, sessionLocks := fun _ => none, locks := fun _ => .free
      nextLock := 0, procs := fun _ => .unborn, nextLauncher := 0, workers := [], now := 0
      stopped := [] }
  have hother : 2 ∈ m.sessions := (AList.mem_insert _).mpr (Or.inl rfl)
  have hkept : 2 ∈ (m.runEdit (.stop 1) .osError .done).sessions :=
    hall m (.stop 1) .osError .done (by decide) 2 hother (by decide)
  have hempty : (m.runEdit (.stop 1) .osError .done).sessions.lookup 2 = none := rfl
  exact AList.lookup_eq_none.mp hempty hkept

end Sections

end Session
