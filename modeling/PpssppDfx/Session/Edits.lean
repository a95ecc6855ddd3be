import PpssppDfx.Session.Store
import PpssppDfx.Session.System

/-!
# Which task edits the table

A step of the server changes the table only by a section of one of its tasks. This file says
which section a step runs, and that nothing else writes.

## Main definitions

* `Session.editOf` — the section that a step runs, and how it ends
* `Session.Start.Runs` — the section of a start, by where it stands

## Main results

* `sessions_step` — the table after a step is the one that the section leaves
-/

set_option autoImplicit false

namespace Session

open Semantics

/-- The section that a tool call runs, and how it ends. -/
def Tool.edit (t : Tool) (e : ToolEvent) : Option (Edit × Io) :=
  match t.phase, e with
  | .touching sid _, .touches io live => some (.touch sid live, io)
  | _, _ => none

/-- The section that a stop runs. -/
def Stop.edit (t : Stop) (o : Outcome) : Option (Edit × Io) :=
  match t.phase, o with
  | .removing, .io io => some (.stop t.sid, io)
  | _, _ => none

/-- The section that an idle collection runs. -/
def Gc.edit (g : Gc) (o : Outcome) : Option (Edit × Io) :=
  match g.phase, o with
  | .removing, .io io => some (.gc g.reclaimed, io)
  | _, _ => none

/-- The section that a start runs. -/
def Start.edit (m : Manager) (t : Start) (e : StartEvent) : Option (Edit × Io) :=
  match t.phase, e with
  | .persisting port, .io io => some (.persist t.sid (newRecord m t port), io)
  | .markingConnected, .io io =>
    some (.markConnected t.sid (t.record.withWsConnected true), io)
  | .binding, .io io => some (.bind t.sid, io)
  | .gateFolding, .io io => some (.fold t.sid t.attempt, io)
  | .discarding, .io io => some (.discard t.sid, io)
  | _, _ => none

/-- The section of a start, by where it stands. -/
inductive Start.Runs (m : Manager) (t : Start) : Edit → Prop
  | persist {port : ℕ} (hphase : t.phase = .persisting port) :
      t.Runs m (.persist t.sid (newRecord m t port))
  | markConnected (hphase : t.phase = .markingConnected) :
      t.Runs m (.markConnected t.sid (t.record.withWsConnected true))
  | bind (hphase : t.phase = .binding) : t.Runs m (.bind t.sid)
  | fold (hphase : t.phase = .gateFolding) : t.Runs m (.fold t.sid t.attempt)
  | discard (hphase : t.phase = .discarding) : t.Runs m (.discard t.sid)

theorem runs_of_edit {m : Manager} {t : Start} {e : StartEvent} {edit : Edit} {io : Io}
    (h : t.edit m e = some (edit, io)) : t.Runs m edit ∧ e = .io io := by
  unfold Start.edit at h
  split at h <;> rename_i hphase <;> cases h
  · exact ⟨.persist hphase, rfl⟩
  · exact ⟨.markConnected hphase, rfl⟩
  · exact ⟨.bind hphase, rfl⟩
  · exact ⟨.fold hphase, rfl⟩
  · exact ⟨.discard hphase, rfl⟩

/-- The section that a step runs. -/
def editOf (s : State) : Event → Option (Edit × Io)
  | .tool i e =>
    match s.tasks i with
    | .tool t => t.edit e
    | _ => none
  | .stop i o =>
    match s.tasks i with
    | .stop t => t.edit o
    | _ => none
  | .gc i o =>
    match s.tasks i with
    | .gc g => g.edit o
    | _ => none
  | .start i e =>
    match s.tasks i with
    | .start t => t.edit s.mgr e
    | _ => none
  | _ => none

section OfTask

variable {s : State} {i : ℕ}

theorem editOf_tool {t : Tool} (h : s.tasks i = .tool t) (e : ToolEvent) :
    editOf s (.tool i e) = t.edit e := by
  simp only [editOf, h]

theorem editOf_stop {t : Stop} (h : s.tasks i = .stop t) (o : Outcome) :
    editOf s (.stop i o) = t.edit o := by
  simp only [editOf, h]

theorem editOf_gc {g : Gc} (h : s.tasks i = .gc g) (o : Outcome) :
    editOf s (.gc i o) = g.edit o := by
  simp only [editOf, h]

theorem editOf_start {t : Start} (h : s.tasks i = .start t) (e : StartEvent) :
    editOf s (.start i e) = t.edit s.mgr e := by
  simp only [editOf, h]

/-- The steps that run a section. -/
theorem editOf_cases {e : Event} {edit : Edit} {io : Io} (h : editOf s e = some (edit, io)) :
    (∃ i sid live, e = .tool i (.touches io live) ∧ edit = .touch sid live) ∨
      (∃ i t, e = .stop i (.io io) ∧ s.tasks i = .stop t ∧ edit = .stop t.sid) ∨
      (∃ i g, e = .gc i (.io io) ∧ s.tasks i = .gc g ∧ g.phase = .removing ∧
        edit = .gc g.reclaimed) ∨
      ∃ i t e', e = .start i e' ∧ s.tasks i = .start t ∧ t.edit s.mgr e' = some (edit, io) := by
  cases e with
  | callTool | callStop | callGc | callStart | worker | dies | passes => exact nomatch h
  | tool i e =>
    simp only [editOf] at h
    split at h
    · unfold Tool.edit at h
      split at h <;> cases h
      exact Or.inl ⟨i, _, _, rfl, rfl⟩
    · cases h
  | stop i o =>
    simp only [editOf] at h
    split at h
    · rename_i hi
      unfold Stop.edit at h
      split at h <;> cases h
      exact Or.inr (Or.inl ⟨i, _, rfl, hi, rfl⟩)
    · cases h
  | gc i o =>
    simp only [editOf] at h
    split at h
    · rename_i hi
      unfold Gc.edit at h
      split at h <;> cases h
      rename_i hphase
      exact Or.inr (Or.inr (Or.inl ⟨i, _, rfl, hi, hphase, rfl⟩))
    · cases h
  | start i e =>
    simp only [editOf] at h
    split at h
    · rename_i hi
      exact Or.inr (Or.inr (Or.inr ⟨i, _, e, rfl, hi, h⟩))
    · cases h

end OfTask

/-- The table that a section leaves, if a step runs one. -/
def Manager.after (m : Manager) : Option (Edit × Io) → Sessions
  | none => m.sessions
  | some (edit, io) => (m.updateSessions (edit.modify m) io).1.sessions

variable {m : Manager} {s t : State} {io : Io}

/-! ## Steps that write nothing -/

@[simp] theorem sessions_kill (pid : ℕ) : (m.kill pid).sessions = m.sessions := by
  unfold Manager.kill
  split <;> rfl

@[simp] theorem sessions_spawn (pid : ℕ) : (m.spawn pid).sessions = m.sessions := by
  unfold Manager.spawn
  split <;> rfl

@[simp] theorem sessions_escape (x : Start) : (escape m x).1.sessions = m.sessions := by
  unfold escape
  split
  · rfl
  · split <;> rfl

@[simp] theorem sessions_afterHandles (x : Start) (notFound : Bool) :
    (afterHandles m x notFound).1.sessions = m.sessions := by
  unfold afterHandles
  split
  · exact sessions_escape x
  · rfl

@[simp] theorem sessions_gateRead (x : Start) (reads : Bool) :
    (gateRead m x reads).1.sessions = m.sessions := by
  unfold gateRead
  split
  · rfl
  · exact sessions_escape x

@[simp] theorem sessions_endWorker (w : Worker) (ok : Bool) :
    (m.endWorker w ok).sessions = m.sessions := by
  unfold Manager.endWorker
  cases w <;> dsimp only <;> split <;> simp

@[simp] theorem sessions_enterLock (task : TaskId) (x : Tool) (sid : SessionId) (ref : LockRef) :
    (enterLock m task x sid ref).1.sessions = m.sessions := by
  cases ref with
  | closing => rfl
  | object n =>
    simp only [enterLock]
    split <;> rfl

@[simp] theorem sessions_afterTouch (task : TaskId) (busy : SessionId → Bool) (x : Tool)
    (sid : SessionId) (after : After) :
    (afterTouch m task busy x sid after).1.sessions = m.sessions := by
  cases after with
  | stay => rfl
  | submit => rfl
  | enter =>
    have hlock : (m.sessionLock sid).1.sessions = m.sessions := by
      unfold Manager.sessionLock
      split <;> rfl
    exact (sessions_enterLock task x sid _).trans hlock

@[simp] theorem sessions_stopLook (x : Stop) (reads : Bool) :
    (stopLook m x reads).1.sessions = m.sessions := by
  unfold stopLook
  split <;> rfl

/-! ## Sections -/

theorem sessions_stopRemove (x : Stop) :
    (stopRemove m x io).1.sessions =
      (m.updateSessions ((Edit.stop x.sid).modify m) io).1.sessions := by
  unfold stopRemove
  change _ = (m.updateSessions (fun sessions => some (sessions.erase x.sid)) io).1.sessions
  split
  · rename_i m₁ heq
    rw [heq]
    show (m₁.dropSentinel x.sid).sessions = m₁.sessions
    unfold Manager.dropSentinel
    split <;> rfl
  · rename_i heq
    rw [heq]

theorem sessions_persist (x : Start) (port : ℕ) : (persist m x port io).1.sessions =
    (m.updateSessions ((Edit.persist x.sid (newRecord m x port)).modify m) io).1.sessions := by
  unfold persist
  change _ = (m.updateSessions (fun sessions =>
    if portConflict m sessions x.sid port then none
    else some (sessions.insert x.sid (newRecord m x port))) io).1.sessions
  dsimp only
  split
  · rename_i heq
    rw [heq]
  · rename_i heq
    rw [heq]
    rfl
  · rename_i heq
    rw [heq, sessions_escape]

theorem sessions_markConnected (x : Start) : (markConnected m x io).1.sessions =
    (m.updateSessions
      ((Edit.markConnected x.sid (x.record.withWsConnected true)).modify m) io).1.sessions := by
  unfold markConnected
  change _ = (m.updateSessions (fun sessions =>
    if x.sid ∈ sessions then some (sessions.insert x.sid (x.record.withWsConnected true))
    else none) io).1.sessions
  dsimp only
  split
  · rename_i heq
    rw [heq]
  · rename_i heq
    rw [heq]
  · rename_i heq
    rw [heq, sessions_escape]

theorem sessions_bind (x : Start) : (bind m x io).1.sessions =
    (m.updateSessions ((Edit.bind x.sid).modify m) io).1.sessions := by
  unfold bind
  change _ = (m.updateSessions (fun sessions =>
    (sessions.lookup x.sid).map fun r => sessions.insert x.sid r) io).1.sessions
  split
  · rename_i heq
    rw [heq]
    rfl
  · rename_i heq
    rw [heq]
  · rename_i heq
    rw [heq]
    rfl
  · rename_i opened heq
    rw [heq, sessions_escape]
    cases opened <;> rfl

theorem sessions_fold (x : Start) : (fold m x io).1.sessions =
    (m.updateSessions ((Edit.fold x.sid x.attempt).modify m) io).1.sessions := by
  unfold fold
  change _ = (m.updateSessions (fun sessions => (sessions.lookup x.sid).map fun r =>
    sessions.insert x.sid { r with recovered := some x.attempt }) io).1.sessions
  split
  · rename_i heq
    rw [heq]
  · rename_i heq
    rw [heq]
  · rename_i heq
    rw [heq, sessions_escape]

/-! ## Steps -/

theorem sessions_toolStep {i : TaskId} {busy : SessionId → Bool} {x : Tool} {e : ToolEvent}
    {r : Manager × Tool × Option SessionId} (h : toolStep m i busy x e = some r) :
    r.1.sessions = m.after (x.edit e) := by
  unfold Tool.edit
  cases takes_of_toolStep h with
  | @touches sid after io live m₁ htouch hphase =>
    simp only [hphase, Manager.after]
    show _ = (m.touchSession sid live io).1.sessions
    rw [htouch]
    exact sessions_afterTouch i busy x sid after
  | @touchFails sid after io live m₁ result htouch _ hphase =>
    -- a touch that fails has run its section, whose result the tool does not look at
    simp only [hphase, Manager.after]
    show _ = (m.touchSession sid live io).1.sessions
    rw [htouch]
  | begins hphase | leaves _ _ hphase | leavesUnheld _ _ hphase | finishes _ hphase
  | checks _ hphase | checkFails _ hphase | checkGivenUp hphase | granted _ hphase
  | withdraws hphase | closingGivenUp hphase =>
    simp only [hphase, Manager.after]
    all_goals rfl

theorem sessions_stopStep {x : Stop} {o : Outcome} {r : Manager × Stop}
    (h : stopStep m x o = some r) : r.1.sessions = m.after (x.edit o) := by
  unfold Stop.edit
  cases takes_of_stopStep h with
  | _ hphase =>
    simp only [hphase, Manager.after]
    all_goals first
      | rfl
      | exact sessions_stopLook x _
      | exact sessions_kill _
      | exact sessions_stopRemove x

theorem sessions_gcStep {g : Gc} {o : Outcome} {r : Manager × Gc}
    (h : gcStep m g o = some r) : r.1.sessions = m.after (g.edit o) := by
  unfold Gc.edit
  cases takes_of_gcStep h
  all_goals rename_i hphase
  all_goals simp only [hphase, Manager.after]
  all_goals first
    | rfl
    | exact sessions_kill _

theorem sessions_startStep {x : Start} {e : StartEvent} {r : Manager × Start}
    (h : startStep m x e = some r) : r.1.sessions = m.after (x.edit m e) := by
  unfold Start.edit
  cases takes_of_startStep h with
  | spawned _ hphase =>
    simp only [hphase, Manager.after]
    exact sessions_spawn _
  -- whatever the start does besides its sections leaves the table alone
  | _ hphase =>
    simp only [hphase, Manager.after]
    all_goals first
      | rfl
      | exact sessions_kill _
      | exact sessions_escape x
      | exact (sessions_escape x).trans (sessions_kill _)
      | exact sessions_afterHandles x _
      | exact sessions_gateRead x _
      | exact sessions_persist x _
      | exact sessions_markConnected x
      | exact sessions_bind x
      | exact sessions_fold x
      | (split <;> simp)

/-- The table after a step is the one that its section leaves. -/
theorem sessions_step {e : Event} (h : machine.step s e = some t) :
    t.mgr.sessions = s.mgr.after (editOf s e) := by
  cases takes_of_step h with
  | callTool => rfl
  | callStop sid => rfl
  | callGc => rfl
  | callStart _ => rfl
  | tool hi hr =>
    rw [editOf_tool hi]
    exact sessions_toolStep hr
  | submits hi hr =>
    rw [editOf_tool hi]
    exact sessions_toolStep hr
  | stop hi hr =>
    rw [editOf_stop hi]
    exact sessions_stopStep hr
  | gc hi hr =>
    rw [editOf_gc hi]
    exact sessions_gcStep hr
  | start hi hr =>
    rw [editOf_start hi]
    exact sessions_startStep hr
  | worker _ ok => exact sessions_endWorker _ ok
  | dies pid => exact sessions_kill pid
  | passes seconds => rfl

end Session
