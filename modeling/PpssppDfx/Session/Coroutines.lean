import PpssppDfx.Session.Manager

/-!
# Tool calls, stops and the idle collector

Each coroutine is a local state that says at which await it stands, and a step function
that takes the outcome of that await through to the next one. Awaits with nothing
between them but other awaits are one.

## Main definitions

* `Session.Tool`, `Session.toolStep` — a tool call or background job, which opens
  session clients, validates sessions and submits jobs in any order
* `Session.Stop`, `Session.stopStep` — `stop_session`
* `Session.Gc`, `Session.gcStep` — `gc_idle_sessions`
* `Session.Tool.Takes`, `Session.Stop.Takes`, `Session.Gc.Takes` — what their steps can do
-/

set_option autoImplicit false

namespace Session

/-! ## Tool calls -/

/-- What a tool does once `touch_session` returned. -/
inductive After where
  /-- `session_client_with_transport`: take the session's lock. -/
  | enter
  /-- Submit a background job. -/
  | submit
  /-- `validate_session_alive`: go on. -/
  | stay
  deriving DecidableEq

inductive ToolPhase where
  /-- The tool's own code, inside the contexts it holds. -/
  | body
  /-- Awaiting `get_session_state`. -/
  | checking (sid : SessionId) (after : After)
  /-- Awaiting `touch_session`. -/
  | touching (sid : SessionId) (after : After)
  /-- Awaiting the session's lock. -/
  | waiting (sid : SessionId) (ref : LockRef)
  | ended
  deriving DecidableEq

/-- A tool call, or the task of a background job for a session. It is inside the bodies
of `session_client_with_transport` that it holds, the innermost first. -/
structure Tool where
  job : Option SessionId
  held : List (SessionId × ℕ)
  phase : ToolPhase

inductive ToolEvent where
  | begins (sid : SessionId) (after : After)
  | checks (reads : Bool)
  | touches (io : Io) (live : Bool)
  | granted
  /-- The wait for the lock times out or is cancelled. -/
  | givesUp
  | leaves
  | finishes
  deriving DecidableEq

/-- The lock is taken at once, or the tool stands in line. -/
def enterLock (m : Manager) (task : TaskId) (t : Tool) (sid : SessionId) : LockRef → Manager × Tool
  | .closing => (m, { t with phase := .waiting sid .closing })
  | .object n =>
    match (m.locks n).acquire task with
    | some l => (m.setLock n l, { t with held := (sid, n) :: t.held, phase := .body })
    | none =>
      (m.setLock n ((m.locks n).enqueue task), { t with phase := .waiting sid (.object n) })

/-- The slice after a successful touch. The last component is a submitted job. -/
def afterTouch (m : Manager) (task : TaskId) (busy : SessionId → Bool) (t : Tool)
    (sid : SessionId) : After → Manager × Tool × Option SessionId
  | .enter =>
    let (m, ref) := m.sessionLock sid
    let (m, t) := enterLock m task t sid ref
    (m, t, none)
  -- a session has one running job at most; the refusal is an exception in the tool
  | .submit => (m, { t with phase := .body }, if busy sid then none else some sid)
  | .stay => (m, { t with phase := .body }, none)

/-- One step of a tool; `busy` is `running_job_for_session`. Exceptions return to the
tool's own code, which may leave the contexts it holds. -/
def toolStep (m : Manager) (task : TaskId) (busy : SessionId → Bool) (t : Tool) (e : ToolEvent) :
    Option (Manager × Tool × Option SessionId) :=
  match t.phase, e with
  | .body, .begins sid after => some (m, { t with phase := .checking sid after }, none)
  | .body, .leaves =>
    match t.held with
    | [] => none
    | (_, n) :: rest =>
      match (m.locks n).release task with
      -- the lock is looked up by its object: the table may hold another one by now
      | some l => some (m.setLock n l, { t with held := rest }, none)
      | none => some (m, { t with held := rest }, none)
  | .body, .finishes =>
    if t.held = [] then some (m, { t with phase := .ended }, none) else none
  | .checking sid after, .checks reads =>
    if m.validates reads sid then some (m, { t with phase := .touching sid after }, none)
    else some (m, { t with phase := .body }, none)
  | .checking _ _, .givesUp => some (m, { t with phase := .body }, none)
  | .touching sid after, .touches io live =>
    match m.touchSession sid live io with
    | (m, .saved) => some (afterTouch m task busy t sid after)
    | (m, _) => some (m, { t with phase := .body }, none)
  | .waiting sid (.object n), .granted =>
    match (m.locks n).grant task with
    | some l => some (m.setLock n l, { t with held := (sid, n) :: t.held, phase := .body }, none)
    | none => none
  | .waiting _ (.object n), .givesUp =>
    some (m.setLock n ((m.locks n).withdraw task), { t with phase := .body }, none)
  -- nobody is ever granted the sentinel: the wait for it ends with `SessionBusy`
  | .waiting _ .closing, .givesUp => some (m, { t with phase := .body }, none)
  | _, _ => none

/-- What a step of a tool call can do. -/
inductive Tool.Takes (m : Manager) (task : TaskId) (busy : SessionId → Bool) (t : Tool) :
    ToolEvent → Manager × Tool × Option SessionId → Prop
  | begins {sid : SessionId} {after : After} (hphase : t.phase = .body) :
      t.Takes m task busy (.begins sid after) (m, { t with phase := .checking sid after }, none)
  | leaves {sid : SessionId} {n : ℕ} {rest : List (SessionId × ℕ)} {l : SessionLock}
      (hheld : t.held = (sid, n) :: rest) (hrelease : (m.locks n).release task = some l)
      (hphase : t.phase = .body) :
      t.Takes m task busy .leaves (m.setLock n l, { t with held := rest }, none)
  | leavesUnheld {sid : SessionId} {n : ℕ} {rest : List (SessionId × ℕ)}
      (hheld : t.held = (sid, n) :: rest) (hrelease : (m.locks n).release task = none)
      (hphase : t.phase = .body) :
      t.Takes m task busy .leaves (m, { t with held := rest }, none)
  | finishes (hheld : t.held = []) (hphase : t.phase = .body) :
      t.Takes m task busy .finishes (m, { t with phase := .ended }, none)
  | checks {sid : SessionId} {after : After} {reads : Bool} (hvalid : m.validates reads sid = true)
      (hphase : t.phase = .checking sid after) :
      t.Takes m task busy (.checks reads) (m, { t with phase := .touching sid after }, none)
  | checkFails {sid : SessionId} {after : After} {reads : Bool}
      (hinvalid : ¬ m.validates reads sid = true) (hphase : t.phase = .checking sid after) :
      t.Takes m task busy (.checks reads) (m, { t with phase := .body }, none)
  | checkGivenUp {sid : SessionId} {after : After} (hphase : t.phase = .checking sid after) :
      t.Takes m task busy .givesUp (m, { t with phase := .body }, none)
  | touches {sid : SessionId} {after : After} {io : Io} {live : Bool} {m₁ : Manager}
      (htouch : m.touchSession sid live io = (m₁, .saved))
      (hphase : t.phase = .touching sid after) :
      t.Takes m task busy (.touches io live) (afterTouch m₁ task busy t sid after)
  | touchFails {sid : SessionId} {after : After} {io : Io} {live : Bool} {m₁ : Manager}
      {result : SectionResult} (htouch : m.touchSession sid live io = (m₁, result))
      (hfailed : result ≠ .saved) (hphase : t.phase = .touching sid after) :
      t.Takes m task busy (.touches io live) (m₁, { t with phase := .body }, none)
  | granted {sid : SessionId} {n : ℕ} {l : SessionLock} (hgrant : (m.locks n).grant task = some l)
      (hphase : t.phase = .waiting sid (.object n)) :
      t.Takes m task busy .granted
        (m.setLock n l, { t with held := (sid, n) :: t.held, phase := .body }, none)
  | withdraws {sid : SessionId} {n : ℕ} (hphase : t.phase = .waiting sid (.object n)) :
      t.Takes m task busy .givesUp
        (m.setLock n ((m.locks n).withdraw task), { t with phase := .body }, none)
  | closingGivenUp {sid : SessionId} (hphase : t.phase = .waiting sid .closing) :
      t.Takes m task busy .givesUp (m, { t with phase := .body }, none)

theorem takes_of_toolStep {m : Manager} {task : TaskId} {busy : SessionId → Bool} {t : Tool}
    {e : ToolEvent} {r : Manager × Tool × Option SessionId}
    (h : toolStep m task busy t e = some r) : t.Takes m task busy e r := by
  unfold toolStep at h
  split at h
  · rename_i hphase
    cases h
    exact .begins hphase
  · rename_i hphase
    split at h
    · cases h
    · rename_i hheld
      split at h <;> rename_i hrelease <;> cases h
      · exact .leaves hheld hrelease hphase
      · exact .leavesUnheld hheld hrelease hphase
  · rename_i hphase
    split at h <;> cases h
    exact .finishes ‹_› hphase
  · rename_i hphase
    split at h <;> cases h
    · exact .checks ‹_› hphase
    · exact .checkFails ‹_› hphase
  · rename_i hphase
    cases h
    exact .checkGivenUp hphase
  · rename_i hphase
    split at h
    · rename_i htouch
      cases h
      exact .touches htouch hphase
    · rename_i hfailed htouch
      cases h
      exact .touchFails htouch hfailed hphase
  · rename_i hphase
    split at h <;> cases h
    exact .granted ‹_› hphase
  · rename_i hphase
    cases h
    exact .withdraws hphase
  · rename_i hphase
    cases h
    exact .closingGivenUp hphase
  · cases h

/-! ## `stop_session` -/

/-- What is to be killed: a launcher's process, or the process a record names. -/
inductive Target where
  | launcher (n : ℕ)
  | recorded (pid : ℕ)
  deriving DecidableEq

def Target.process : Target → ℕ
  | .launcher n => n
  | .recorded pid => pid

/-- The launcher if there is one, else the recorded process. -/
def target (launcher pid : Option ℕ) : Option Target :=
  match launcher with
  | some n => some (.launcher n)
  | none => pid.map .recorded

inductive StopPhase where
  /-- Phase 1: read the record, empty the tables, install the sentinel. -/
  | looking
  /-- Phase 1.5: close the observer and the transport. -/
  | closing (target : Option Target)
  /-- Phase 2: kill the process. -/
  | killing (target : Target)
  /-- Phase 3: remove the record and the sentinel. -/
  | removing
  | returned
  | raised
  deriving DecidableEq

structure Stop where
  sid : SessionId
  phase : StopPhase

/-- How an await ends. -/
inductive Outcome where
  | returns
  | raises
  /-- `_kill_stale_pid_safe` refuses the kill: the image is not PPSSPP. -/
  | refuses
  | cancelled
  | io (io : Io)
  deriving DecidableEq

/-- The next phase when there is something to kill, or nothing. -/
def Stop.toKill (t : Stop) : Option Target → Stop
  | some target => { t with phase := .killing target }
  | none => { t with phase := .removing }

/-- Drop the in-memory owners of a session. -/
def Manager.popHandles (m : Manager) (sid : SessionId) : Manager :=
  ((m.popLauncher sid).popTransport sid).popObserver sid

/-- Phase 1 of `stop_session`, which reads but does not save. -/
def stopLook (m : Manager) (t : Stop) (reads : Bool) : Manager × Stop :=
  match (m.load reads).lookup t.sid with
  | none => (m, { t with phase := .raised })
  | some r =>
    -- a session that was loaded from disk has no launcher, and its process is found by pid
    let goal := target (m.launchers t.sid) r.pid
    let handles := (m.observers t.sid).isSome || (m.transports t.sid).isSome
    ((m.popHandles t.sid).setEntry t.sid (some .closing),
      if handles then { t with phase := .closing goal } else t.toKill goal)

/-- Remove the sentinel of a session whose record is gone. -/
def Manager.dropSentinel (m : Manager) (sid : SessionId) : Manager :=
  if m.sessionLocks sid = some .closing then m.setEntry sid none else m

/-- Phase 3 of `stop_session`. -/
def stopRemove (m : Manager) (t : Stop) (io : Io) : Manager × Stop :=
  match m.updateSessions (fun sessions => some (sessions.erase t.sid)) io with
  | (m, .saved) =>
    ({ m.dropSentinel t.sid with stopped := t.sid :: m.stopped }, { t with phase := .returned })
  | (m, _) => (m, { t with phase := .raised })

/-- One step of `stop_session`. -/
def stopStep (m : Manager) (t : Stop) (o : Outcome) : Option (Manager × Stop) :=
  match t.phase, o with
  | .looking, .io (.done reads) => some (stopLook m t reads)
  | .looking, .cancelled => some (m, { t with phase := .raised })
  | .closing goal, .returns => some (m, t.toKill goal)
  -- a close that fails is logged, and the stop goes on
  | .closing goal, .raises => some (m, t.toKill goal)
  | .closing _, .cancelled => some (m, { t with phase := .raised })
  | .killing goal, .returns => some (m.kill goal.process, { t with phase := .removing })
  -- an exception of `launcher.stop` leaves the stop before phase 3; one of the kill by pid is
  -- suppressed, and a refusal raises none
  | .killing (.launcher _), .raises => some (m, { t with phase := .raised })
  | .killing (.recorded _), .raises => some (m, { t with phase := .removing })
  | .killing (.recorded _), .refuses => some (m, { t with phase := .removing })
  | .killing goal, .cancelled =>
    -- the worker thread goes on with the kill
    some (m.leave (.stop t.sid goal.process false), { t with phase := .raised })
  | .removing, .io io => some (stopRemove m t io)
  | _, _ => none

/-- What a step of a stop can do. -/
inductive Stop.Takes (m : Manager) (t : Stop) : Outcome → Manager × Stop → Prop
  | looks {reads : Bool} (hphase : t.phase = .looking) :
      t.Takes m (.io (.done reads)) (stopLook m t reads)
  | lookCancelled (hphase : t.phase = .looking) :
      t.Takes m .cancelled (m, { t with phase := .raised })
  | closed {goal : Option Target} (hphase : t.phase = .closing goal) :
      t.Takes m .returns (m, t.toKill goal)
  | closeRaises {goal : Option Target} (hphase : t.phase = .closing goal) :
      t.Takes m .raises (m, t.toKill goal)
  | closeCancelled {goal : Option Target} (hphase : t.phase = .closing goal) :
      t.Takes m .cancelled (m, { t with phase := .raised })
  | killed {goal : Target} (hphase : t.phase = .killing goal) :
      t.Takes m .returns (m.kill goal.process, { t with phase := .removing })
  | launcherRaises {n : ℕ} (hphase : t.phase = .killing (.launcher n)) :
      t.Takes m .raises (m, { t with phase := .raised })
  | recordedRaises {pid : ℕ} (hphase : t.phase = .killing (.recorded pid)) :
      t.Takes m .raises (m, { t with phase := .removing })
  | recordedRefuses {pid : ℕ} (hphase : t.phase = .killing (.recorded pid)) :
      t.Takes m .refuses (m, { t with phase := .removing })
  | killCancelled {goal : Target} (hphase : t.phase = .killing goal) :
      t.Takes m .cancelled
        (m.leave (.stop t.sid goal.process false), { t with phase := .raised })
  | removes {io : Io} (hphase : t.phase = .removing) : t.Takes m (.io io) (stopRemove m t io)

theorem takes_of_stopStep {m : Manager} {t : Stop} {o : Outcome} {r : Manager × Stop}
    (h : stopStep m t o = some r) : t.Takes m o r := by
  unfold stopStep at h
  split at h <;> rename_i hphase <;> cases h
  · exact .looks hphase
  · exact .lookCancelled hphase
  · exact .closed hphase
  · exact .closeRaises hphase
  · exact .closeCancelled hphase
  · exact .killed hphase
  · exact .launcherRaises hphase
  · exact .recordedRaises hphase
  · exact .recordedRefuses hphase
  · exact .killCancelled hphase
  · exact .removes hphase

/-! ## `gc_idle_sessions` -/

/-- What the scan saw of a session to be reclaimed. -/
structure GcEntry where
  sid : SessionId
  launcher : Option ℕ
  transport : Option ℕ
  observer : Option ℕ
  pid : Option ℕ
  deriving DecidableEq

def GcEntry.target (e : GcEntry) : Option Target := Session.target e.launcher e.pid

inductive GcPhase where
  /-- Phase 1: scan the table. -/
  | scanning
  /-- Awaiting the second read of the table. -/
  | rereading (entries : List GcEntry)
  /-- Phase 2, between two entries. -/
  | deciding (fresh : Sessions) (entries : List GcEntry)
  | closing (fresh : Sessions) (entry : GcEntry) (entries : List GcEntry)
  | killing (fresh : Sessions) (entry : GcEntry) (target : Target) (entries : List GcEntry)
  | dropping (fresh : Sessions) (entry : GcEntry) (entries : List GcEntry)
  /-- Phase 3: remove the records. -/
  | removing
  | ended

structure Gc where
  /-- The sessions whose processes were stopped. -/
  reclaimed : List SessionId
  phase : GcPhase

/-- The scan of phase 1. -/
def gcScan (m : Manager) (sessions : Sessions) : List GcEntry :=
  (sessions.keys.filter fun sid =>
      -- the process is dead, or nobody has used the session for too long
      (sessions.lookup sid).any fun r => m.expired r || decide (m.idle r)).map fun sid =>
    { sid := sid
      launcher := m.launchers sid
      transport := m.transports sid
      observer := m.observers sid
      pid := (sessions.lookup sid).bind Record.pid }

/-- The session became active again: the re-read record is alive and recently used. -/
def gcSkips (m : Manager) (fresh : Sessions) (sid : SessionId) : Bool :=
  match fresh.lookup sid with
  | none => false
  | some r => !m.expired r && decide (¬ m.idle r)

/-- After the handles are closed: kill, or drop at once when there is nothing to kill. -/
def Gc.toKill (g : Gc) (fresh : Sessions) (entry : GcEntry) (entries : List GcEntry) : Gc :=
  match entry.target with
  | some target => { g with phase := .killing fresh entry target entries }
  | none => { g with phase := .dropping fresh entry entries }

/-- The decision about the next entry. -/
def gcDecide (m : Manager) (g : Gc) (fresh : Sessions) : List GcEntry → Gc
  | [] => { g with phase := .removing }
  | entry :: entries =>
    if gcSkips m fresh entry.sid then { g with phase := .deciding fresh entries }
    else if entry.observer.isSome || entry.transport.isSome then
      { g with phase := .closing fresh entry entries }
    else g.toKill fresh entry entries

/-- Drop the entries that still hold the objects the scan saw. -/
def gcDrop (m : Manager) (entry : GcEntry) : Manager :=
  let drop (table : SessionId → Option ℕ) (seen : Option ℕ) : SessionId → Option ℕ :=
    if table entry.sid = seen then Function.update table entry.sid none else table
  { m with
    launchers := drop m.launchers entry.launcher
    transports := drop m.transports entry.transport
    observers := drop m.observers entry.observer }

/-- Phase 3 of `gc_idle_sessions`. -/
def gcRemove (m : Manager) (g : Gc) (io : Io) : Manager × Gc :=
  ((m.updateSessions (fun sessions =>
      some (g.reclaimed.foldl (fun table sid => table.erase sid) sessions)) io).1,
    { g with phase := .ended })

/-- One step of `gc_idle_sessions`. -/
def gcStep (m : Manager) (g : Gc) (o : Outcome) : Option (Manager × Gc) :=
  match g.phase, o with
  | .scanning, .io (.done reads) =>
    match gcScan m (m.load reads) with
    | [] => some (m, { g with phase := .ended })
    | entries => some (m, { g with phase := .rereading entries })
  | .scanning, .cancelled => some (m, { g with phase := .ended })
  | .rereading entries, .io (.done reads) =>
    some (m, { g with phase := .deciding (m.load reads) entries })
  | .rereading _, .cancelled => some (m, { g with phase := .ended })
  | .deciding fresh entries, .returns => some (m, gcDecide m g fresh entries)
  | .closing fresh entry entries, .returns => some (m, g.toKill fresh entry entries)
  | .closing fresh entry entries, .raises => some (m, g.toKill fresh entry entries)
  | .closing _ _ _, .cancelled => some (m, { g with phase := .ended })
  | .killing fresh entry goal entries, .returns =>
    some (m.kill goal.process, { g with phase := .dropping fresh entry entries })
  | .killing fresh entry (.recorded _) entries, .refuses =>
    some (m, { g with phase := .dropping fresh entry entries })
  -- a kill that fails keeps the entry, and the next collection tries again
  | .killing fresh _ _ entries, .raises => some (m, { g with phase := .deciding fresh entries })
  | .killing _ entry goal _, .cancelled =>
    some (m.leave (.stop entry.sid goal.process true), { g with phase := .ended })
  | .dropping fresh entry entries, .returns =>
    some (gcDrop m entry,
      { reclaimed := g.reclaimed ++ [entry.sid], phase := .deciding fresh entries })
  | .dropping _ _ _, .cancelled => some (m, { g with phase := .ended })
  | .removing, .io io => some (gcRemove m g io)
  | _, _ => none

/-- What a step of a collection can do. -/
inductive Gc.Takes (m : Manager) (g : Gc) : Outcome → Manager × Gc → Prop
  | scansNone {reads : Bool} (hscan : gcScan m (m.load reads) = []) (hphase : g.phase = .scanning) :
      g.Takes m (.io (.done reads)) (m, { g with phase := .ended })
  | scans {reads : Bool} (hscan : gcScan m (m.load reads) ≠ []) (hphase : g.phase = .scanning) :
      g.Takes m (.io (.done reads)) (m, { g with phase := .rereading (gcScan m (m.load reads)) })
  | scanCancelled (hphase : g.phase = .scanning) :
      g.Takes m .cancelled (m, { g with phase := .ended })
  | rereads {reads : Bool} {entries : List GcEntry} (hphase : g.phase = .rereading entries) :
      g.Takes m (.io (.done reads)) (m, { g with phase := .deciding (m.load reads) entries })
  | rereadCancelled {entries : List GcEntry} (hphase : g.phase = .rereading entries) :
      g.Takes m .cancelled (m, { g with phase := .ended })
  | decides {fresh : Sessions} {entries : List GcEntry} (hphase : g.phase = .deciding fresh entries) :
      g.Takes m .returns (m, gcDecide m g fresh entries)
  | closed {fresh : Sessions} {entry : GcEntry} {entries : List GcEntry}
      (hphase : g.phase = .closing fresh entry entries) :
      g.Takes m .returns (m, g.toKill fresh entry entries)
  | closeRaises {fresh : Sessions} {entry : GcEntry} {entries : List GcEntry}
      (hphase : g.phase = .closing fresh entry entries) :
      g.Takes m .raises (m, g.toKill fresh entry entries)
  | closeCancelled {fresh : Sessions} {entry : GcEntry} {entries : List GcEntry}
      (hphase : g.phase = .closing fresh entry entries) :
      g.Takes m .cancelled (m, { g with phase := .ended })
  | killed {fresh : Sessions} {entry : GcEntry} {goal : Target} {entries : List GcEntry}
      (hphase : g.phase = .killing fresh entry goal entries) :
      g.Takes m .returns (m.kill goal.process, { g with phase := .dropping fresh entry entries })
  | killRefused {fresh : Sessions} {entry : GcEntry} {pid : ℕ} {entries : List GcEntry}
      (hphase : g.phase = .killing fresh entry (.recorded pid) entries) :
      g.Takes m .refuses (m, { g with phase := .dropping fresh entry entries })
  | killRaises {fresh : Sessions} {entry : GcEntry} {goal : Target} {entries : List GcEntry}
      (hphase : g.phase = .killing fresh entry goal entries) :
      g.Takes m .raises (m, { g with phase := .deciding fresh entries })
  | killCancelled {fresh : Sessions} {entry : GcEntry} {goal : Target} {entries : List GcEntry}
      (hphase : g.phase = .killing fresh entry goal entries) :
      g.Takes m .cancelled
        (m.leave (.stop entry.sid goal.process true), { g with phase := .ended })
  | drops {fresh : Sessions} {entry : GcEntry} {entries : List GcEntry}
      (hphase : g.phase = .dropping fresh entry entries) :
      g.Takes m .returns (gcDrop m entry,
        { reclaimed := g.reclaimed ++ [entry.sid], phase := .deciding fresh entries })
  | dropCancelled {fresh : Sessions} {entry : GcEntry} {entries : List GcEntry}
      (hphase : g.phase = .dropping fresh entry entries) :
      g.Takes m .cancelled (m, { g with phase := .ended })
  | removes {io : Io} (hphase : g.phase = .removing) : g.Takes m (.io io) (gcRemove m g io)

theorem takes_of_gcStep {m : Manager} {g : Gc} {o : Outcome} {r : Manager × Gc}
    (h : gcStep m g o = some r) : g.Takes m o r := by
  unfold gcStep at h
  split at h
  · rename_i hphase
    split at h <;> cases h
    · exact .scansNone ‹_› hphase
    · exact .scans ‹_› hphase
  all_goals
    rename_i hphase
    cases h
  · exact .scanCancelled hphase
  · exact .rereads hphase
  · exact .rereadCancelled hphase
  · exact .decides hphase
  · exact .closed hphase
  · exact .closeRaises hphase
  · exact .closeCancelled hphase
  · exact .killed hphase
  · exact .killRefused hphase
  · exact .killRaises hphase
  · exact .killCancelled hphase
  · exact .drops hphase
  · exact .dropCancelled hphase
  · exact .removes hphase

end Session
