import PpssppDfx.Session.Coroutines

/-!
# Starting a session

`start_session` spawns an emulator in a worker thread, registers its launcher, saves a
record, and tries to connect. A resilient start then waits for the emulated CPU; an
attempt that shows wedge evidence is torn down and launched again under the same session
id. The step function takes the outcome of each await through to the next one.

## Main definitions

* `Session.Start` — a start and the await it stands at
* `Session.startStep` — one step, over the resilient loop, `_start_once`, `_gate_boot`
  and the cleanup handlers
* `Session.Start.Takes` — what a step can do

## Main results

* `startStep_attempt` — a step stays within the attempt, or launches the next one
-/

set_option autoImplicit false

namespace Session

/-- Why an attempt is torn down. -/
inductive Why where
  /-- `_BootWedge`: heal and relaunch. -/
  | wedge
  /-- Any other exception: tear down and re-raise. -/
  | failure
  deriving DecidableEq

inductive StartPhase where
  /-- Awaiting `launcher.start`. -/
  | spawning
  /-- `launcher.start` raised; awaiting `launcher.stop`. -/
  | stoppingFailed
  /-- The section that checks the port and saves the record. -/
  | persisting (port : ℕ)
  /-- `PortConflict`; awaiting `launcher.stop` outside the lock. -/
  | stoppingConflict
  /-- Awaiting `_probe_ws_connection`. -/
  | probing
  /-- The section that marks the record as connected. -/
  | markingConnected
  /-- Connecting the transport, the version handshake and the observer's start. -/
  | connecting
  /-- The section that registers the transport and the observer. -/
  | binding
  /-- `_close_transport_and_observer`, after `SessionNotFound` or another exception. -/
  | stoppingHandles (notFound : Bool)
  | closingHandles (notFound : Bool)
  /-- `_gate_boot`: awaiting `get_session_state`. -/
  | gateReading
  /-- `_gate_boot`: awaiting `probe_cpu_ready`. -/
  | gateProbing
  /-- `_gate_boot`: the section that folds the attempt into the record. -/
  | gateFolding
  /-- `_teardown_wedged_attempt`: awaiting the lock. -/
  | tearingDown (why : Why)
  /-- `_teardown_wedged_attempt`: closing the transport and the observer. -/
  | closing (why : Why) (launcher : Option ℕ)
  /-- `_teardown_wedged_attempt`: awaiting `launcher.stop`. -/
  | stoppingWedged (why : Why) (launcher : ℕ)
  /-- Awaiting `wedge_cooldown`. -/
  | coolingDown
  /-- `_abandon_launcher`: awaiting `launcher.stop`. -/
  | abandoning (launcher : ℕ)
  /-- `_discard_session_entry`. -/
  | discarding
  | returned
  | raised
  deriving DecidableEq

structure Start where
  sid : SessionId
  resilient : Bool
  maxRestarts : ℕ
  attempt : ℕ
  /-- The number of the current attempt's launcher. -/
  launcher : ℕ
  /-- The launchers of all attempts so far. -/
  launched : List ℕ
  /-- The record that `_start_once` holds. -/
  record : Record
  phase : StartPhase

/-- How an await of a start ends. -/
inductive StartEvent where
  /-- `launcher.start` returns; the emulator listens on a port. -/
  | spawned (port : ℕ)
  /-- `launcher.start` raises, before or after the process was created. -/
  | spawnRaises (born : Bool)
  | returns
  /-- The WebSocket probe reports a connection. -/
  | connects
  | raises
  /-- `probe_cpu_ready` raises `BootTimeout`. -/
  | timesOut
  | cancelled
  | reads (ok : Bool)
  | io (io : Io)
  deriving DecidableEq

/-- A record without content, before the first attempt has made one. -/
def Record.blank : Record := ⟨none, 0, 0, 0, false, none⟩

/-- A launch attempt begins: a new launcher, awaiting its start. -/
def launch (m : Manager) (t : Start) (attempt : ℕ) : Manager × Start :=
  ({ m with nextLauncher := m.nextLauncher + 1 },
    { t with
      attempt := attempt
      launcher := m.nextLauncher
      launched := m.nextLauncher :: t.launched
      phase := .spawning })

/-- `start_session` up to its first await. -/
def startSession (m : Manager) (sid : SessionId) (resilient : Bool) (maxRestarts : ℕ) :
    Manager × Start :=
  launch m ⟨sid, resilient, maxRestarts, 0, 0, [], .blank, .spawning⟩ 0

/-- An exception other than `_BootWedge` leaves `_start_once`: the first slice of the
handler. -/
def escape (m : Manager) (t : Start) : Manager × Start :=
  -- the resilient loop tears the attempt down; a plain start abandons its launcher
  if t.resilient then (m, { t with phase := .tearingDown .failure })
  else
    match m.launchers t.sid with
    | none => (m, { t with phase := .discarding })
    | some n => (m.popLauncher t.sid, { t with phase := .abandoning n })

/-- `_start_once` after the transport was set up or given up: return, or enter the gate,
which judges the attempt wedged when no transport is registered. -/
def enterGate (m : Manager) (t : Start) : Start :=
  if t.resilient then
    -- no transport is the third kind of wedge evidence
    if m.transports t.sid = none then { t with phase := .tearingDown .wedge }
    else { t with phase := .gateReading }
  else { t with phase := .returned }

/-- After `_close_transport_and_observer`: re-raise `SessionNotFound`, or go on. -/
def afterHandles (m : Manager) (t : Start) (notFound : Bool) : Manager × Start :=
  if notFound then escape m t else (m, enterGate m t)

/-- There is budget for another attempt. -/
def Start.hasBudget (t : Start) : Bool := decide (t.attempt < t.maxRestarts)

/-- After the launcher of an attempt was stopped. -/
def afterTeardown (t : Start) : Why → Start
  | .wedge =>
    if t.hasBudget then { t with phase := .coolingDown } else { t with phase := .discarding }
  | .failure => { t with phase := .discarding }

/-- Stop the launcher that the teardown popped, if there was one. -/
def stopPopped (t : Start) (why : Why) : Option ℕ → Start
  | some n => { t with phase := .stoppingWedged why n }
  | none => afterTeardown t why

/-- The section of `_teardown_wedged_attempt`. -/
def teardown (m : Manager) (t : Start) (why : Why) : Manager × Start :=
  ((m.popHandles t.sid).setEntry t.sid none,
    if (m.transports t.sid).isSome || (m.observers t.sid).isSome then
      { t with phase := .closing why (m.launchers t.sid) }
    else stopPopped t why (m.launchers t.sid))

/-- `_check_port_conflict`: another session's live process has the port. -/
def portConflict (m : Manager) (sessions : Sessions) (sid : SessionId) (port : ℕ) : Bool :=
  sessions.keys.any fun other =>
    decide (other ≠ sid) && (sessions.lookup other).any fun r =>
      r.pid.isSome && !m.expired r && decide (r.port = port)

/-- The record of a new attempt. -/
def newRecord (m : Manager) (t : Start) (port : ℕ) : Record :=
  ⟨some t.launcher, port, m.now, 0, false, none⟩

/-- The section that checks the port and saves the record. -/
def persist (m : Manager) (t : Start) (port : ℕ) (io : Io) : Manager × Start :=
  let record := newRecord m t port
  match m.updateSessions (fun sessions =>
      if portConflict m sessions t.sid port then none
      else some (sessions.insert t.sid record)) io with
  | (m, .saved) => (m, { t with record := record, phase := .probing })
  -- the owner is dropped under the lock, the slow stop runs outside of it
  | (m, .absent) =>
    (m.popLauncher t.sid, { t with phase := .stoppingConflict })
  | (m, _) => escape m t

/-- The section that marks the record as connected. -/
def markConnected (m : Manager) (t : Start) (io : Io) : Manager × Start :=
  let record := t.record.withWsConnected true
  match m.updateSessions (fun sessions =>
      if t.sid ∈ sessions then some (sessions.insert t.sid record) else none) io with
  | (m, .saved) => (m, { t with record := record, phase := .connecting })
  | (m, .absent) => (m, { t with phase := .connecting })
  | (m, _) => escape m t

/-- Register the transport and the observer of the attempt. -/
def Manager.register (m : Manager) (t : Start) : Manager :=
  { m with
    transports := Function.update m.transports t.sid (some t.launcher)
    observers := Function.update m.observers t.sid (some t.launcher) }

/-- The section that registers the handles, unless the session is gone. -/
def bind (m : Manager) (t : Start) (io : Io) : Manager × Start :=
  match m.updateSessions (fun sessions =>
      (sessions.lookup t.sid).map fun r => sessions.insert t.sid r) io with
  | (m, .saved) => (m.register t, enterGate (m.register t) t)
  | (m, .absent) => (m, { t with phase := .stoppingHandles true })
  -- the tables are written before the save: they keep the handles when it fails
  | (m, .raised) => (m.register t, { t with phase := .stoppingHandles false })
  | (m, .cut opened) => escape (if opened then m.register t else m) t

/-- `_gate_boot` reads the session's state. -/
def gateRead (m : Manager) (t : Start) (reads : Bool) : Manager × Start :=
  if m.validates reads t.sid then (m, { t with phase := .gateProbing }) else escape m t

/-- The section that folds the attempt into the record. -/
def fold (m : Manager) (t : Start) (io : Io) : Manager × Start :=
  match m.updateSessions (fun sessions =>
      (sessions.lookup t.sid).map fun r =>
        sessions.insert t.sid { r with recovered := some t.attempt }) io with
  | (m, .saved) => (m, { t with phase := .returned })
  | (m, .absent) => (m, { t with phase := .returned })
  | (m, _) => escape m t

/-- `_discard_session_entry`. -/
def discard (m : Manager) (t : Start) (io : Io) : Manager × Start :=
  ((m.updateSessions (fun sessions =>
      if t.sid ∈ sessions then some (sessions.erase t.sid) else none) io).1,
    { t with phase := .raised })

/-- One step of a start. A cancellation that arrives inside a handler leaves the handler,
except where it suppresses cancellations. -/
def startStep (m : Manager) (t : Start) (e : StartEvent) : Option (Manager × Start) :=
  match t.phase, e with
  | .spawning, .spawned port =>
    if m.procs t.launcher = .unborn then
      let m := m.spawn t.launcher
      some ({ m with launchers := Function.update m.launchers t.sid (some t.launcher) },
        { t with phase := .persisting port })
    else none
  | .spawning, .spawnRaises born =>
    some (if born then m.spawn t.launcher else m, { t with phase := .stoppingFailed })
  | .spawning, .cancelled => some (escape (m.leave (.spawn t.sid t.launcher)) t)
  | .stoppingFailed, .returns => some (escape (m.kill t.launcher) t)
  | .stoppingFailed, .raises => some (escape m t)
  | .stoppingFailed, .cancelled => some (escape (m.leave (.stop t.sid t.launcher false)) t)
  | .persisting port, .io io => some (persist m t port io)
  | .stoppingConflict, .returns => some (escape (m.kill t.launcher) t)
  | .stoppingConflict, .raises => some (escape m t)
  | .stoppingConflict, .cancelled => some (escape (m.leave (.stop t.sid t.launcher false)) t)
  | .probing, .connects => some (m, { t with phase := .markingConnected })
  | .probing, .returns => some (m, enterGate m t)
  | .probing, .raises => some (m, enterGate m t)
  | .probing, .cancelled => some (escape m t)
  | .markingConnected, .io io => some (markConnected m t io)
  | .connecting, .returns => some (m, { t with phase := .binding })
  | .connecting, .raises => some (m, { t with phase := .stoppingHandles false })
  | .connecting, .cancelled => some (escape m t)
  | .binding, .io io => some (bind m t io)
  | .stoppingHandles notFound, .returns =>
    some (m.popObserver t.sid, { t with phase := .closingHandles notFound })
  | .stoppingHandles notFound, .raises => some (afterHandles m t notFound)
  | .stoppingHandles notFound, .cancelled => some (afterHandles m t notFound)
  | .closingHandles notFound, .returns =>
    some (afterHandles (m.popTransport t.sid) t notFound)
  | .closingHandles notFound, .raises => some (afterHandles m t notFound)
  | .closingHandles notFound, .cancelled => some (afterHandles m t notFound)
  | .gateReading, .reads ok => some (gateRead m t ok)
  | .gateReading, .cancelled => some (escape m t)
  | .gateProbing, .returns => some (m, { t with phase := .gateFolding })
  | .gateProbing, .timesOut => some (m, { t with phase := .tearingDown .wedge })
  | .gateProbing, .cancelled => some (escape m t)
  | .gateFolding, .io io => some (fold m t io)
  | .tearingDown why, .returns => some (teardown m t why)
  | .tearingDown _, .cancelled => some (m, { t with phase := .raised })
  | .closing why launcher, .returns => some (m, stopPopped t why launcher)
  | .closing why launcher, .raises => some (m, stopPopped t why launcher)
  | .closing _ _, .cancelled => some (m, { t with phase := .raised })
  | .stoppingWedged why n, .returns => some (m.kill n, afterTeardown t why)
  | .stoppingWedged why _, .raises => some (m, afterTeardown t why)
  | .stoppingWedged _ n, .cancelled =>
    some (m.leave (.stop t.sid n false), { t with phase := .raised })
  | .coolingDown, .returns => some (launch m t (t.attempt + 1))
  | .coolingDown, .cancelled => some (m, { t with phase := .raised })
  | .abandoning n, .returns => some (m.kill n, { t with phase := .discarding })
  | .abandoning _, .raises => some (m, { t with phase := .discarding })
  | .abandoning n, .cancelled =>
    some (m.leave (.stop t.sid n false), { t with phase := .discarding })
  | .discarding, .io io => some (discard m t io)
  | _, _ => none

/-- What a step of a start can do. -/
inductive Start.Takes (m : Manager) (t : Start) : StartEvent → Manager × Start → Prop
  | spawned {port : ℕ} (hunborn : m.procs t.launcher = .unborn) (hphase : t.phase = .spawning) :
      t.Takes m (.spawned port)
        ({ m.spawn t.launcher with
            launchers := Function.update (m.spawn t.launcher).launchers t.sid (some t.launcher) },
          { t with phase := .persisting port })
  | spawnRaises {born : Bool} (hphase : t.phase = .spawning) :
      t.Takes m (.spawnRaises born)
        (if born then m.spawn t.launcher else m, { t with phase := .stoppingFailed })
  | spawnCancelled (hphase : t.phase = .spawning) :
      t.Takes m .cancelled (escape (m.leave (.spawn t.sid t.launcher)) t)
  | failedStopped (hphase : t.phase = .stoppingFailed) :
      t.Takes m .returns (escape (m.kill t.launcher) t)
  | failedRaises (hphase : t.phase = .stoppingFailed) : t.Takes m .raises (escape m t)
  | failedCancelled (hphase : t.phase = .stoppingFailed) :
      t.Takes m .cancelled (escape (m.leave (.stop t.sid t.launcher false)) t)
  | persists {port : ℕ} {io : Io} (hphase : t.phase = .persisting port) :
      t.Takes m (.io io) (persist m t port io)
  | conflictStopped (hphase : t.phase = .stoppingConflict) :
      t.Takes m .returns (escape (m.kill t.launcher) t)
  | conflictRaises (hphase : t.phase = .stoppingConflict) : t.Takes m .raises (escape m t)
  | conflictCancelled (hphase : t.phase = .stoppingConflict) :
      t.Takes m .cancelled (escape (m.leave (.stop t.sid t.launcher false)) t)
  | probeConnects (hphase : t.phase = .probing) :
      t.Takes m .connects (m, { t with phase := .markingConnected })
  | probeReturns (hphase : t.phase = .probing) : t.Takes m .returns (m, enterGate m t)
  | probeRaises (hphase : t.phase = .probing) : t.Takes m .raises (m, enterGate m t)
  | probeCancelled (hphase : t.phase = .probing) : t.Takes m .cancelled (escape m t)
  | marks {io : Io} (hphase : t.phase = .markingConnected) :
      t.Takes m (.io io) (markConnected m t io)
  | connected (hphase : t.phase = .connecting) :
      t.Takes m .returns (m, { t with phase := .binding })
  | connectRaises (hphase : t.phase = .connecting) :
      t.Takes m .raises (m, { t with phase := .stoppingHandles false })
  | connectCancelled (hphase : t.phase = .connecting) : t.Takes m .cancelled (escape m t)
  | binds {io : Io} (hphase : t.phase = .binding) : t.Takes m (.io io) (bind m t io)
  | observerStopped {notFound : Bool} (hphase : t.phase = .stoppingHandles notFound) :
      t.Takes m .returns (m.popObserver t.sid, { t with phase := .closingHandles notFound })
  | observerRaises {notFound : Bool} (hphase : t.phase = .stoppingHandles notFound) :
      t.Takes m .raises (afterHandles m t notFound)
  | observerCancelled {notFound : Bool} (hphase : t.phase = .stoppingHandles notFound) :
      t.Takes m .cancelled (afterHandles m t notFound)
  | transportClosed {notFound : Bool} (hphase : t.phase = .closingHandles notFound) :
      t.Takes m .returns (afterHandles (m.popTransport t.sid) t notFound)
  | transportRaises {notFound : Bool} (hphase : t.phase = .closingHandles notFound) :
      t.Takes m .raises (afterHandles m t notFound)
  | transportCancelled {notFound : Bool} (hphase : t.phase = .closingHandles notFound) :
      t.Takes m .cancelled (afterHandles m t notFound)
  | gateReads {ok : Bool} (hphase : t.phase = .gateReading) :
      t.Takes m (.reads ok) (gateRead m t ok)
  | gateReadCancelled (hphase : t.phase = .gateReading) : t.Takes m .cancelled (escape m t)
  | gateProbed (hphase : t.phase = .gateProbing) :
      t.Takes m .returns (m, { t with phase := .gateFolding })
  | gateTimesOut (hphase : t.phase = .gateProbing) :
      t.Takes m .timesOut (m, { t with phase := .tearingDown .wedge })
  | gateProbeCancelled (hphase : t.phase = .gateProbing) : t.Takes m .cancelled (escape m t)
  | folds {io : Io} (hphase : t.phase = .gateFolding) : t.Takes m (.io io) (fold m t io)
  | tornDown {why : Why} (hphase : t.phase = .tearingDown why) :
      t.Takes m .returns (teardown m t why)
  | teardownCancelled {why : Why} (hphase : t.phase = .tearingDown why) :
      t.Takes m .cancelled (m, { t with phase := .raised })
  | handlesClosed {why : Why} {launcher : Option ℕ} (hphase : t.phase = .closing why launcher) :
      t.Takes m .returns (m, stopPopped t why launcher)
  | handlesRaise {why : Why} {launcher : Option ℕ} (hphase : t.phase = .closing why launcher) :
      t.Takes m .raises (m, stopPopped t why launcher)
  | handlesCancelled {why : Why} {launcher : Option ℕ}
      (hphase : t.phase = .closing why launcher) :
      t.Takes m .cancelled (m, { t with phase := .raised })
  | poppedStopped {why : Why} {n : ℕ} (hphase : t.phase = .stoppingWedged why n) :
      t.Takes m .returns (m.kill n, afterTeardown t why)
  | poppedRaises {why : Why} {n : ℕ} (hphase : t.phase = .stoppingWedged why n) :
      t.Takes m .raises (m, afterTeardown t why)
  | poppedCancelled {why : Why} {n : ℕ} (hphase : t.phase = .stoppingWedged why n) :
      t.Takes m .cancelled (m.leave (.stop t.sid n false), { t with phase := .raised })
  | relaunches (hphase : t.phase = .coolingDown) :
      t.Takes m .returns (launch m t (t.attempt + 1))
  | coolingCancelled (hphase : t.phase = .coolingDown) :
      t.Takes m .cancelled (m, { t with phase := .raised })
  | abandonedStopped {n : ℕ} (hphase : t.phase = .abandoning n) :
      t.Takes m .returns (m.kill n, { t with phase := .discarding })
  | abandonedRaises {n : ℕ} (hphase : t.phase = .abandoning n) :
      t.Takes m .raises (m, { t with phase := .discarding })
  | abandonedCancelled {n : ℕ} (hphase : t.phase = .abandoning n) :
      t.Takes m .cancelled (m.leave (.stop t.sid n false), { t with phase := .discarding })
  | discards {io : Io} (hphase : t.phase = .discarding) : t.Takes m (.io io) (discard m t io)

theorem takes_of_startStep {m : Manager} {t : Start} {e : StartEvent} {r : Manager × Start}
    (h : startStep m t e = some r) : t.Takes m e r := by
  unfold startStep at h
  split at h
  case h_1 hphase =>
    split at h <;> cases h
    exact .spawned ‹_› hphase
  case h_46 => cases h
  all_goals
    cases h
    rename_i hphase
    first
      | exact .spawnRaises hphase | exact .spawnCancelled hphase | exact .failedStopped hphase
      | exact .failedRaises hphase | exact .failedCancelled hphase | exact .persists hphase
      | exact .conflictStopped hphase | exact .conflictRaises hphase
      | exact .conflictCancelled hphase | exact .probeConnects hphase | exact .probeReturns hphase
      | exact .probeRaises hphase | exact .probeCancelled hphase | exact .marks hphase
      | exact .connected hphase | exact .connectRaises hphase | exact .connectCancelled hphase
      | exact .binds hphase | exact .observerStopped hphase | exact .observerRaises hphase
      | exact .observerCancelled hphase | exact .transportClosed hphase
      | exact .transportRaises hphase | exact .transportCancelled hphase | exact .gateReads hphase
      | exact .gateReadCancelled hphase | exact .gateProbed hphase | exact .gateTimesOut hphase
      | exact .gateProbeCancelled hphase | exact .folds hphase | exact .tornDown hphase
      | exact .teardownCancelled hphase | exact .handlesClosed hphase | exact .handlesRaise hphase
      | exact .handlesCancelled hphase | exact .poppedStopped hphase | exact .poppedRaises hphase
      | exact .poppedCancelled hphase | exact .relaunches hphase | exact .coolingCancelled hphase
      | exact .abandonedStopped hphase | exact .abandonedRaises hphase
      | exact .abandonedCancelled hphase | exact .discards hphase

/-! ## Attempts -/

/-- The start stands elsewhere in the same attempt. -/
structure SameAttempt (t t' : Start) : Prop where
  sid : t'.sid = t.sid
  launcher : t'.launcher = t.launcher
  launched : t'.launched = t.launched

variable {m : Manager} {t : Start}

theorem SameAttempt.phase (t : Start) (phase : StartPhase) :
    SameAttempt t { t with phase := phase } := ⟨rfl, rfl, rfl⟩

theorem sameAttempt_escape (m : Manager) (t : Start) : SameAttempt t (escape m t).2 := by
  unfold escape
  split
  · exact .phase t _
  · split <;> exact .phase t _

theorem sameAttempt_enterGate (m : Manager) (t : Start) : SameAttempt t (enterGate m t) := by
  unfold enterGate
  split
  · split <;> exact .phase t _
  · exact .phase t _

theorem sameAttempt_afterHandles (m : Manager) (t : Start) (notFound : Bool) :
    SameAttempt t (afterHandles m t notFound).2 := by
  unfold afterHandles
  split
  · exact sameAttempt_escape m t
  · exact sameAttempt_enterGate m t

theorem sameAttempt_afterTeardown (t : Start) (why : Why) :
    SameAttempt t (afterTeardown t why) := by
  cases why with
  | failure => exact .phase t _
  | wedge =>
    simp only [afterTeardown]
    split <;> exact .phase t _

theorem sameAttempt_stopPopped (t : Start) (why : Why) (launcher : Option ℕ) :
    SameAttempt t (stopPopped t why launcher) := by
  cases launcher with
  | some n => exact .phase t _
  | none => exact sameAttempt_afterTeardown t why

/-- A step of a start stays within the attempt, or launches the next one. -/
theorem startStep_attempt {e : StartEvent} {r : Manager × Start} (h : startStep m t e = some r) :
    SameAttempt t r.2 ∨ t.phase = .coolingDown ∧ r = launch m t (t.attempt + 1) := by
  cases takes_of_startStep h with
  | relaunches hphase => exact Or.inr ⟨hphase, rfl⟩
  | persists =>
    left
    unfold persist
    dsimp only
    split <;> first | exact ⟨rfl, rfl, rfl⟩ | exact sameAttempt_escape _ t
  | marks =>
    left
    unfold markConnected
    dsimp only
    split <;> first | exact ⟨rfl, rfl, rfl⟩ | exact sameAttempt_escape _ t
  | binds =>
    left
    unfold bind
    split <;> first
      | exact ⟨rfl, rfl, rfl⟩
      | exact sameAttempt_escape _ t
      | exact sameAttempt_enterGate _ t
  | gateReads =>
    left
    unfold gateRead
    split <;> first | exact ⟨rfl, rfl, rfl⟩ | exact sameAttempt_escape _ t
  | folds =>
    left
    unfold fold
    split <;> first | exact ⟨rfl, rfl, rfl⟩ | exact sameAttempt_escape _ t
  | tornDown =>
    left
    unfold teardown
    dsimp only
    split <;> first | exact ⟨rfl, rfl, rfl⟩ | exact sameAttempt_stopPopped t _ _
  | _ =>
    left
    first
      | exact .phase t _
      | exact sameAttempt_escape _ t
      | exact sameAttempt_enterGate _ t
      | exact sameAttempt_afterHandles _ t _
      | exact sameAttempt_afterTeardown t _
      | exact sameAttempt_stopPopped t _ _

/-- A start keeps its session id over all its attempts. -/
theorem sid_startStep {e : StartEvent} {r : Manager × Start} (h : startStep m t e = some r) :
    r.2.sid = t.sid := by
  rcases startStep_attempt h with hsame | ⟨_, rfl⟩
  · exact hsame.sid
  · rfl

end Session
