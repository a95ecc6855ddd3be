import PpssppDfx.Semantics.Machine
import PpssppDfx.Session.Coroutines
import PpssppDfx.Session.Start

/-!
# The tasks of the server

The server runs tool calls, background jobs, stops, idle collections and starts as tasks
of one event loop. A step of the machine lets one task go on from its await, or is a
step of the environment: a new call, a worker thread that ends, a process that dies, or
time that passes.

## Main definitions

* `Session.State`, `Session.machine` — the manager and its tasks
* `Session.State.Takes` — what a step can do
-/

set_option autoImplicit false

namespace Session

open Semantics

inductive Task where
  | absent
  | tool (t : Tool)
  | stop (t : Stop)
  | gc (g : Gc)
  | start (t : Start)

structure State where
  mgr : Manager
  tasks : TaskId → Task
  nextTask : TaskId

/-- The bodies a task is inside of: sessions, with the lock objects it holds. -/
def Task.held : Task → List (SessionId × ℕ)
  | .tool t => t.held
  | _ => []

/-- The task of a queued or running background job for a session. -/
def Task.jobFor (sid : SessionId) : Task → Bool
  | .tool t => decide (t.job = some sid ∧ t.phase ≠ .ended)
  | _ => false

/-- The start of a session. -/
def Task.starts (sid : SessionId) : Task → Bool
  | .start t => decide (t.sid = sid)
  | _ => false

/-- `running_job_for_session`. -/
def State.busy (s : State) (sid : SessionId) : Bool :=
  (List.range s.nextTask).any fun i => (s.tasks i).jobFor sid

/-- A session id as `uuid4` makes it: no record, stop or start has it. -/
def State.freshId (s : State) (sid : SessionId) : Bool :=
  ((s.mgr.sessions.lookup sid).isNone && decide (sid ∉ s.mgr.stopped)) &&
    (List.range s.nextTask).all fun i => !(s.tasks i).starts sid

def State.setTask (s : State) (m : Manager) (i : TaskId) (task : Task) : State :=
  { s with mgr := m, tasks := Function.update s.tasks i task }

/-- A new task of the event loop. -/
def State.addTask (s : State) (task : Task) : State :=
  { s with tasks := Function.update s.tasks s.nextTask task, nextTask := s.nextTask + 1 }

/-- A worker thread whose coroutine is gone ends, with or without success. -/
def Manager.endWorker (m : Manager) (worker : Worker) (ok : Bool) : Manager :=
  let m := { m with workers := m.workers.erase worker }
  match worker with
  | .spawn _ launcher => if ok then m.spawn launcher else m
  | .stop _ pid _ => if ok then m.kill pid else m

inductive Event where
  | callTool
  | callStop (sid : SessionId)
  | callGc
  | callStart (sid : SessionId) (resilient : Bool) (maxRestarts : ℕ)
  | tool (i : TaskId) (e : ToolEvent)
  | stop (i : TaskId) (o : Outcome)
  | gc (i : TaskId) (o : Outcome)
  | start (i : TaskId) (e : StartEvent)
  | worker (w : Worker) (ok : Bool)
  | dies (pid : ℕ)
  | passes (seconds : ℕ)

/-- The task of a submitted background job, which opens a session client. -/
def jobTask (sid : SessionId) : Task := .tool ⟨some sid, [], .checking sid .enter⟩

/-- One step of the server. -/
def step (s : State) : Event → Option State
  | .callTool => some (s.addTask (.tool ⟨none, [], .body⟩))
  | .callStop sid => some (s.addTask (.stop ⟨sid, .looking⟩))
  | .callGc => some (s.addTask (.gc ⟨[], .scanning⟩))
  | .callStart sid resilient maxRestarts =>
    -- `uuid4` makes no session id twice
    if s.freshId sid then
      let (m, t) := startSession s.mgr sid resilient maxRestarts
      some ({ s with mgr := m }.addTask (.start t))
    else none
  | .tool i e =>
    match s.tasks i with
    | .tool t =>
      match toolStep s.mgr i s.busy t e with
      | some (m, t, none) => some (s.setTask m i (.tool t))
      -- the job that the tool submitted runs as a task of its own
      | some (m, t, some sid) => some ((s.setTask m i (.tool t)).addTask (jobTask sid))
      | none => none
    | _ => none
  | .stop i o =>
    match s.tasks i with
    | .stop t => (stopStep s.mgr t o).map fun (m, t) => s.setTask m i (.stop t)
    | _ => none
  | .gc i o =>
    match s.tasks i with
    | .gc g => (gcStep s.mgr g o).map fun (m, g) => s.setTask m i (.gc g)
    | _ => none
  | .start i e =>
    match s.tasks i with
    | .start t => (startStep s.mgr t e).map fun (m, t) => s.setTask m i (.start t)
    | _ => none
  | .worker w ok =>
    -- only the threads whose coroutines were cancelled are left to end by themselves
    if w ∈ s.mgr.workers then some { s with mgr := s.mgr.endWorker w ok } else none
  | .dies pid => some { s with mgr := s.mgr.kill pid }
  | .passes seconds => some { s with mgr := { s.mgr with now := s.mgr.now + seconds } }

/-- The manager and the tasks that run on it. -/
def machine : Machine State Event where
  step := step

/-- What a step can do. -/
inductive State.Takes (s : State) : Event → State → Prop
  | callTool : s.Takes .callTool (s.addTask (.tool ⟨none, [], .body⟩))
  | callStop (sid : SessionId) : s.Takes (.callStop sid) (s.addTask (.stop ⟨sid, .looking⟩))
  | callGc : s.Takes .callGc (s.addTask (.gc ⟨[], .scanning⟩))
  | callStart {sid : SessionId} {resilient : Bool} {maxRestarts : ℕ}
      (hid : s.freshId sid = true) :
      s.Takes (.callStart sid resilient maxRestarts)
        ({ s with mgr := (startSession s.mgr sid resilient maxRestarts).1 }.addTask
          (.start (startSession s.mgr sid resilient maxRestarts).2))
  | tool {i : TaskId} {e : ToolEvent} {x y : Tool} {m : Manager} (hi : s.tasks i = .tool x)
      (hr : toolStep s.mgr i s.busy x e = some (m, y, none)) :
      s.Takes (.tool i e) (s.setTask m i (.tool y))
  | submits {i : TaskId} {e : ToolEvent} {x y : Tool} {m : Manager} {sid : SessionId}
      (hi : s.tasks i = .tool x) (hr : toolStep s.mgr i s.busy x e = some (m, y, some sid)) :
      s.Takes (.tool i e) ((s.setTask m i (.tool y)).addTask (jobTask sid))
  | stop {i : TaskId} {o : Outcome} {x : Stop} {r : Manager × Stop} (hi : s.tasks i = .stop x)
      (hr : stopStep s.mgr x o = some r) : s.Takes (.stop i o) (s.setTask r.1 i (.stop r.2))
  | gc {i : TaskId} {o : Outcome} {x : Gc} {r : Manager × Gc} (hi : s.tasks i = .gc x)
      (hr : gcStep s.mgr x o = some r) : s.Takes (.gc i o) (s.setTask r.1 i (.gc r.2))
  | start {i : TaskId} {e : StartEvent} {x : Start} {r : Manager × Start}
      (hi : s.tasks i = .start x) (hr : startStep s.mgr x e = some r) :
      s.Takes (.start i e) (s.setTask r.1 i (.start r.2))
  | worker {w : Worker} (hw : w ∈ s.mgr.workers) (ok : Bool) :
      s.Takes (.worker w ok) { s with mgr := s.mgr.endWorker w ok }
  | dies (pid : ℕ) : s.Takes (.dies pid) { s with mgr := s.mgr.kill pid }
  | passes (seconds : ℕ) :
      s.Takes (.passes seconds) { s with mgr := { s.mgr with now := s.mgr.now + seconds } }

theorem takes_of_step {s t : State} {e : Event} (hstep : machine.step s e = some t) :
    s.Takes e t := by
  replace hstep : step s e = some t := hstep
  cases e with
  | callTool => cases hstep; exact .callTool
  | callStop sid => cases hstep; exact .callStop sid
  | callGc => cases hstep; exact .callGc
  | callStart sid resilient maxRestarts =>
    simp only [step] at hstep
    split at hstep <;> cases hstep
    exact .callStart ‹_›
  | tool i e =>
    simp only [step] at hstep
    split at hstep
    · rename_i x hi
      split at hstep <;> cases hstep
      · exact .tool hi ‹_›
      · exact .submits hi ‹_›
    · exact absurd hstep (by simp)
  | stop i o =>
    simp only [step] at hstep
    split at hstep
    · rename_i x hi
      obtain ⟨r, hr, rfl⟩ := Option.map_eq_some_iff.mp hstep
      exact .stop hi hr
    · exact absurd hstep (by simp)
  | gc i o =>
    simp only [step] at hstep
    split at hstep
    · rename_i x hi
      obtain ⟨r, hr, rfl⟩ := Option.map_eq_some_iff.mp hstep
      exact .gc hi hr
    · exact absurd hstep (by simp)
  | start i e =>
    simp only [step] at hstep
    split at hstep
    · rename_i x hi
      obtain ⟨r, hr, rfl⟩ := Option.map_eq_some_iff.mp hstep
      exact .start hi hr
    · exact absurd hstep (by simp)
  | worker w ok =>
    simp only [step] at hstep
    split at hstep <;> cases hstep
    exact .worker ‹_› ok
  | dies pid => cases hstep; exact .dies pid
  | passes seconds => cases hstep; exact .passes seconds

/-- A server that has just started: a table from earlier runs, the processes of the
system, and no task. -/
def init (sessions : Sessions) (procs : ℕ → Proc) (nextLauncher : ℕ) : State where
  mgr :=
    { sessions := sessions
      launchers := fun _ => none
      transports := fun _ => none
      observers := fun _ => none
      sessionLocks := fun _ => none
      locks := fun _ => .free
      nextLock := 0
      procs := procs
      nextLauncher := nextLauncher
      workers := []
      now := 0
      stopped := [] }
  tasks := fun _ => .absent
  nextTask := 0

/-! ## Tasks -/

variable {s t : State}

/-- Task numbers that were not given out have no task. -/
def TasksFresh (s : State) : Prop := ∀ i, s.nextTask ≤ i → s.tasks i = .absent

theorem TasksFresh.setTask (h : TasksFresh s) {i : TaskId} (hi : s.tasks i ≠ .absent)
    (m : Manager) (task : Task) : TasksFresh (s.setTask m i task) := by
  intro j hj
  have hne : j ≠ i := by
    rintro rfl
    exact hi (h j hj)
  simp only [State.setTask, Function.update_of_ne hne]
  exact h j hj

theorem TasksFresh.addTask (h : TasksFresh s) (task : Task) : TasksFresh (s.addTask task) := by
  intro j hj
  have hlt : s.nextTask < j := hj
  simp only [State.addTask, Function.update_of_ne (Nat.ne_of_gt hlt)]
  exact h j (Nat.le_of_lt hlt)

/-- No step makes a task under a number that was not given out. -/
theorem tasksFresh_step {e : Event} (h : TasksFresh s) (hstep : machine.step s e = some t) :
    TasksFresh t := by
  cases takes_of_step hstep with
  | callTool => exact h.addTask _
  | callStop sid => exact h.addTask _
  | callGc => exact h.addTask _
  | callStart _ =>
    have hmgr (m : Manager) : TasksFresh { s with mgr := m } := h
    exact (hmgr _).addTask _
  | tool hi _ => exact h.setTask (by simp [hi]) _ _
  | submits hi _ => exact (h.setTask (by simp [hi]) _ _).addTask _
  | stop hi _ => exact h.setTask (by simp [hi]) _ _
  | gc hi _ => exact h.setTask (by simp [hi]) _ _
  | start hi _ => exact h.setTask (by simp [hi]) _ _
  | worker _ _ => exact h
  | dies _ => exact h
  | passes _ => exact h

end Session
