import Mathlib.Data.List.AList
import Mathlib.Data.Nat.Notation
import Mathlib.Logic.Function.Basic

/-!
# The session manager's state

The manager keeps a table of records on disk (`sessions.json`) and in-memory tables
of launchers, transports, observers and tool-call locks. It runs on one event loop, so
what a coroutine does between two awaits is one step. A load-modify-save section under
`SessionManager._lock` is one step too: no other section runs in between. The thread of a
save whose operation was cancelled may write the file later; these saves are steps of their
own (`Session.Lingering`).

A launcher, the process it starts and the transport and observer of the same launch
attempt carry one number.

## Main definitions

* `Session.Manager` — the tables, the processes and the clock
* `Session.Manager.updateSessions` — a load-modify-save section with its failures
* `Session.SessionLock` — `_ReentrantSessionLock`
* `Session.Manager.sessionLock` — `session_lock`, which creates locks on first use
-/

set_option autoImplicit false

namespace Session

abbrev SessionId := ℕ

abbrev TaskId := ℕ

/-! ## Records -/

/-- A record of `sessions.json`. -/
structure Record where
  pid : Option ℕ
  port : ℕ
  lastActiveAt : ℕ
  execCount : ℕ
  wsConnected : Bool
  recovered : Option ℕ

def Record.withUpdatedActivity (r : Record) (now : ℕ) : Record :=
  { r with lastActiveAt := now, execCount := r.execCount + 1 }

def Record.withWsConnected (r : Record) (connected : Bool) : Record :=
  { r with wsConnected := connected }

abbrev Sessions := AList fun _ : SessionId => Record

/-- Seconds without activity after which a session is reclaimed. -/
def idleGcThreshold : ℕ := 1800

/-! ## Locks -/

/-- `_ReentrantSessionLock`: the owning task, how often it acquired the lock, and the
tasks that wait in line. -/
structure SessionLock where
  owner : Option TaskId
  depth : ℕ
  waiters : List TaskId

namespace SessionLock

def free : SessionLock := ⟨none, 0, []⟩

/-- `acquire` up to its first suspension: `none` if the task has to wait. -/
def acquire (l : SessionLock) (task : TaskId) : Option SessionLock :=
  -- a client inside another one of the same task does not wait for itself
  if l.owner = some task then some { l with depth := l.depth + 1 }
  -- nobody overtakes the tasks in line
  else if l.owner = none ∧ l.waiters = [] then some ⟨some task, 1, []⟩
  else none

/-- Stand in line. -/
def enqueue (l : SessionLock) (task : TaskId) : SessionLock :=
  { l with waiters := l.waiters ++ [task] }

/-- The first in line takes a lock that was released. -/
def grant (l : SessionLock) (task : TaskId) : Option SessionLock :=
  if l.owner = none ∧ l.waiters.head? = some task then
    some ⟨some task, 1, l.waiters.tail⟩
  else none

/-- Leave the line, on a timeout or a cancellation. -/
def withdraw (l : SessionLock) (task : TaskId) : SessionLock :=
  { l with waiters := l.waiters.erase task }

/-- `release`: `none` if the task does not own the lock. -/
def release (l : SessionLock) (task : TaskId) : Option SessionLock :=
  if l.depth = 0 ∨ l.owner ≠ some task then none
  else if l.depth = 1 then some { l with owner := none, depth := 0 }
  else some { l with depth := l.depth - 1 }

end SessionLock

/-- An entry of `_session_locks`: a lock object, or `_CLOSING_LOCK`, whose `acquire`
never returns. -/
inductive LockRef where
  | closing
  | object (n : ℕ)
  deriving DecidableEq

/-! ## Processes and worker threads -/

inductive Proc where
  | unborn
  | alive
  | gone
  deriving DecidableEq

/-- A worker thread whose awaiting coroutine was cancelled; it runs to its end. -/
inductive Worker where
  /-- `launcher.start` of a session's launch attempt. -/
  | spawn (sid : SessionId) (launcher : ℕ)
  /-- A kill of a session's process, handed over by the idle collector or by another
  coroutine. -/
  | stop (sid : SessionId) (pid : ℕ) (byGc : Bool)
  deriving DecidableEq

/-! ## The manager -/

structure Manager where
  sessions : Sessions
  launchers : SessionId → Option ℕ
  transports : SessionId → Option ℕ
  observers : SessionId → Option ℕ
  sessionLocks : SessionId → Option LockRef
  locks : ℕ → SessionLock
  nextLock : ℕ
  procs : ℕ → Proc
  nextLauncher : ℕ
  workers : List Worker
  now : ℕ
  /-- The sessions for which a `stop_session` returned. -/
  stopped : List SessionId

/-- How a section under the lock ends. A read that fails yields the empty table. -/
inductive Io where
  | done (reads : Bool)
  | saveRaises (reads : Bool)
  /-- Cancelled before the table was read. -/
  | cutEarly
  /-- Cancelled during the save, whose thread has written the file by then, or has not yet. -/
  | cutSaving (reads landed : Bool)
  deriving DecidableEq

/-- What the coroutine sees of a section. -/
inductive SectionResult where
  | saved
  /-- The section had nothing to save, or raised before it saved. -/
  | absent
  | raised
  | cut (opened : Bool)
  deriving DecidableEq

namespace Manager

/-- `_load_sessions`. -/
def load (m : Manager) (reads : Bool) : Sessions :=
  if reads then m.sessions else ∅

def save (m : Manager) (sessions : Sessions) : Manager :=
  { m with sessions := sessions }

/-- A load-modify-save section under `_lock`. A save that a cancelled section leaves to its
thread (`Edit.leaves`) is not written here. -/
def updateSessions (m : Manager) (modify : Sessions → Option Sessions) :
    Io → Manager × SectionResult
  | .cutEarly => (m, .cut false)
  | .done reads =>
    match modify (m.load reads) with
    | none => (m, .absent)
    | some sessions => (m.save sessions, .saved)
  | .saveRaises reads =>
    match modify (m.load reads) with
    | none => (m, .absent)
    | some _ => (m, .raised)
  -- the write runs in a thread, which a cancellation does not stop: it ends in this step, or
  -- after the lock is free
  | .cutSaving reads landed =>
    match modify (m.load reads) with
    | none => (m, .absent)
    | some sessions => (if landed then m.save sessions else m, .cut true)

/-- The record names a process that is not alive. -/
def expired (m : Manager) (r : Record) : Bool :=
  match r.pid with
  | none => false
  | some pid => decide (m.procs pid ≠ .alive)

/-- `_idle_seconds`. -/
def idleSeconds (m : Manager) (r : Record) : ℕ := m.now - r.lastActiveAt

/-- The session was idle for longer than the threshold. -/
def idle (m : Manager) (r : Record) : Prop := idleGcThreshold < m.idleSeconds r

instance (m : Manager) (r : Record) : Decidable (m.idle r) :=
  inferInstanceAs (Decidable (_ < _))

/-- `get_session_state` returns. -/
def validates (m : Manager) (reads : Bool) (sid : SessionId) : Bool :=
  match (m.load reads).lookup sid with
  | none => false
  | some r => !m.expired r

/-- `touch_session`; `live` is what the session's transport reports of its connection. -/
def touchSession (m : Manager) (sid : SessionId) (live : Bool) : Io → Manager × SectionResult :=
  m.updateSessions fun sessions =>
    (sessions.lookup sid).map fun r =>
      -- the flag in the record follows the transport, if the session has one
      let touched := r.withUpdatedActivity m.now
      sessions.insert sid
        (if (m.transports sid).isSome then touched.withWsConnected live else touched)

/-- `session_lock`: the entry of the session, created on first use. -/
def sessionLock (m : Manager) (sid : SessionId) : Manager × LockRef :=
  match m.sessionLocks sid with
  | some ref => (m, ref)
  | none =>
    ({ m with
        sessionLocks := Function.update m.sessionLocks sid (some (.object m.nextLock))
        nextLock := m.nextLock + 1 }, .object m.nextLock)

def setLock (m : Manager) (n : ℕ) (l : SessionLock) : Manager :=
  { m with locks := Function.update m.locks n l }

def popLauncher (m : Manager) (sid : SessionId) : Manager :=
  { m with launchers := Function.update m.launchers sid none }

def popTransport (m : Manager) (sid : SessionId) : Manager :=
  { m with transports := Function.update m.transports sid none }

def popObserver (m : Manager) (sid : SessionId) : Manager :=
  { m with observers := Function.update m.observers sid none }

/-- Set or drop the lock entry of a session. -/
def setEntry (m : Manager) (sid : SessionId) (ref : Option LockRef) : Manager :=
  { m with sessionLocks := Function.update m.sessionLocks sid ref }

/-- A process that is alive ends. -/
def kill (m : Manager) (pid : ℕ) : Manager :=
  if m.procs pid = .alive then { m with procs := Function.update m.procs pid .gone } else m

/-- A process comes into being, once. -/
def spawn (m : Manager) (pid : ℕ) : Manager :=
  if m.procs pid = .unborn then { m with procs := Function.update m.procs pid .alive } else m

/-- A cancelled coroutine leaves its worker thread running. -/
def leave (m : Manager) (worker : Worker) : Manager :=
  { m with workers := m.workers ++ [worker] }

variable {m m' : Manager} {modify : Sessions → Option Sessions} {io : Io} {result : SectionResult}

/-- A section leaves the manager as it was, or saves the table it made. -/
theorem updateSessions_cases (h : m.updateSessions modify io = (m', result)) :
    m' = m ∨ ∃ reads sessions, modify (m.load reads) = some sessions ∧ m' = m.save sessions := by
  cases io with
  | cutEarly => exact Or.inl (congrArg Prod.fst h).symm
  | done reads =>
    simp only [updateSessions] at h
    split at h
    · exact Or.inl (congrArg Prod.fst h).symm
    · rename_i sessions hmodify
      exact Or.inr ⟨reads, sessions, hmodify, (congrArg Prod.fst h).symm⟩
  | saveRaises reads =>
    simp only [updateSessions] at h
    split at h <;> exact Or.inl (congrArg Prod.fst h).symm
  | cutSaving reads landed =>
    simp only [updateSessions] at h
    split at h
    · exact Or.inl (congrArg Prod.fst h).symm
    · rename_i sessions hmodify
      -- the thread may have been stopped before it wrote
      cases landed with
      | false => exact Or.inl (congrArg Prod.fst h).symm
      | true => exact Or.inr ⟨reads, sessions, hmodify, (congrArg Prod.fst h).symm⟩

/-- A section that reports success saved the table it made. -/
theorem updateSessions_saved (h : m.updateSessions modify io = (m', .saved)) :
    ∃ reads sessions, modify (m.load reads) = some sessions ∧ m' = m.save sessions := by
  cases io with
  | done reads =>
    simp only [updateSessions] at h
    split at h
    · exact absurd (congrArg Prod.snd h) (by simp)
    · rename_i sessions hmodify
      exact ⟨reads, sessions, hmodify, (congrArg Prod.fst h).symm⟩
  | cutEarly => exact absurd (congrArg Prod.snd h) (by simp [updateSessions])
  | saveRaises reads =>
    simp only [updateSessions] at h
    split at h <;> exact absurd (congrArg Prod.snd h) (by simp)
  | cutSaving reads landed =>
    simp only [updateSessions] at h
    split at h <;> exact absurd (congrArg Prod.snd h) (by simp)

end Manager

end Session
