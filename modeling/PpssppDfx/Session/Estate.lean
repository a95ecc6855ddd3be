import Mathlib.Data.Finset.Basic
import PpssppDfx.Session.Shed

/-!
# Everything that is kept of a session

Besides the tables of the manager, several modules keep tables by session: the conditions of
breakpoints, the probes, their seeds and streaks of zeros, and the transports of tests. All of
them are dropped at once, by a stop when it takes the session out of the tables and by a
collection when it has stopped the process.

The machine is the server with these tables, with the saves that outlive a cancelled
operation, and with the sessions that a stop or a collection has reclaimed.

## Main definitions

* `Session.SideTables` — the tables of the modules, with `dropSessionSideTables`
* `Session.Estate`, `Session.estate` — the machine
-/

set_option autoImplicit false

namespace Session

open Semantics

/-! ## Side tables -/

/-- The tables of the modules, by their keys. -/
structure SideTables where
  /-- `cond_filter._filters`. -/
  filters : Finset (SessionId × ℕ)
  /-- `probe_observer._REGISTRY_BY_SESSION`. -/
  registryBySession : Finset SessionId
  /-- `probe_observer._SEEDED_BY_SESSION`. -/
  seededBySession : Finset SessionId
  /-- `value_staleness._ZERO_STREAKS`. -/
  zeroStreaks : Finset SessionId
  /-- `client_helper._FAKE_TRANSPORTS`. -/
  fakeTransports : Finset SessionId

namespace SideTables

def empty : SideTables := ⟨∅, ∅, ∅, ∅, ∅⟩

variable (a : SideTables) (sid : SessionId)

/-- `cond_filter.drop_session`. -/
def dropFilters : SideTables := { a with filters := a.filters.filter fun key => key.1 ≠ sid }

/-- `probe_observer.drop_session`. -/
def dropProbes : SideTables :=
  { a with
    registryBySession := a.registryBySession.erase sid
    seededBySession := a.seededBySession.erase sid }

/-- `value_staleness.reset_probe_streaks`. -/
def resetProbeStreaks : SideTables := { a with zeroStreaks := a.zeroStreaks.erase sid }

/-- `client_helper.drop_session`. -/
def dropFakeTransport : SideTables := { a with fakeTransports := a.fakeTransports.erase sid }

/-- `_drop_session_side_tables`. -/
def dropSessionSideTables : SideTables :=
  (((a.dropFilters sid).dropProbes sid).resetProbeStreaks sid).dropFakeTransport sid

/-- The session is in one of the tables. -/
def Occurs : Prop :=
  (∃ address, (sid, address) ∈ a.filters) ∨ sid ∈ a.registryBySession ∨
    sid ∈ a.seededBySession ∨ sid ∈ a.zeroStreaks ∨ sid ∈ a.fakeTransports

variable {a sid}

theorem not_occurs_dropSessionSideTables : ¬ (a.dropSessionSideTables sid).Occurs sid := by
  simp [Occurs, dropSessionSideTables, dropFilters, dropProbes, resetProbeStreaks,
    dropFakeTransport]

theorem occurs_of_dropSessionSideTables {other : SessionId}
    (h : (a.dropSessionSideTables other).Occurs sid) : a.Occurs sid := by
  rcases h with ⟨address, haddress⟩ | hregistry | hseeded | hstreaks | hfake
  · exact Or.inl ⟨address, (Finset.mem_filter.mp haddress).1⟩
  · exact Or.inr (Or.inl (Finset.mem_of_mem_erase hregistry))
  · exact Or.inr (Or.inr (Or.inl (Finset.mem_of_mem_erase hseeded)))
  · exact Or.inr (Or.inr (Or.inr (Or.inl (Finset.mem_of_mem_erase hstreaks))))
  · exact Or.inr (Or.inr (Or.inr (Or.inr (Finset.mem_of_mem_erase hfake))))

end SideTables

/-- A tool call writes a side table. -/
inductive SideWrite where
  /-- `cond_filter.register`. -/
  | register (sid : SessionId) (address : ℕ)
  /-- `cond_filter.drop`. -/
  | drop (sid : SessionId) (address : ℕ)
  /-- `probe_observer._registry`. -/
  | registry (sid : SessionId)
  /-- `probe_observer._seed_from_yaml`, with or without probes in the file. -/
  | seed (sid : SessionId) (probes : Bool)
  /-- `value_staleness.classify_probe_reading`. -/
  | classify (sid : SessionId)
  /-- `client_helper` makes a transport for tests. -/
  | fakeTransport (sid : SessionId)

namespace SideWrite

/-- The session that the write puts into a table. -/
def adds : SideWrite → Option SessionId
  | .register sid _ => some sid
  | .drop _ _ => none
  | .registry sid => some sid
  | .seed sid _ => some sid
  | .classify sid => some sid
  | .fakeTransport sid => some sid

def apply (a : SideTables) : SideWrite → SideTables
  | .register sid address => { a with filters := insert (sid, address) a.filters }
  | .drop sid address => { a with filters := a.filters.erase (sid, address) }
  | .registry sid => { a with registryBySession := insert sid a.registryBySession }
  | .seed sid probes =>
    { a with
      registryBySession :=
        if probes then insert sid a.registryBySession else a.registryBySession
      seededBySession := insert sid a.seededBySession }
  | .classify sid => { a with zeroStreaks := insert sid a.zeroStreaks }
  | .fakeTransport sid => { a with fakeTransports := insert sid a.fakeTransports }

theorem occurs_of_apply {a : SideTables} {w : SideWrite} {sid : SessionId}
    (h : (w.apply a).Occurs sid) : w.adds = some sid ∨ a.Occurs sid := by
  cases w with
  | drop own address =>
    refine Or.inr (h.imp_left fun ⟨other, hother⟩ => ⟨other, ?_⟩)
    exact Finset.mem_of_mem_erase hother
  | register own address =>
    by_cases hown : own = sid
    · exact Or.inl (congrArg some hown)
    · exact Or.inr (by simpa [SideTables.Occurs, apply, Ne.symm hown] using h)
  | registry own | classify own | fakeTransport own =>
    by_cases hown : own = sid
    · exact Or.inl (congrArg some hown)
    · exact Or.inr (by simpa [SideTables.Occurs, apply, Ne.symm hown] using h)
  | seed own probes =>
    by_cases hown : own = sid
    · exact Or.inl (congrArg some hown)
    · refine Or.inr ?_
      cases probes <;> simpa [SideTables.Occurs, apply, Ne.symm hown] using h

end SideWrite

/-! ## The machine -/

/-- The session that a collection takes out of the tables. -/
def collects (s : State) : Event → Option GcEntry
  -- a collection drops the tables session by session, once the process is stopped
  | .gc i .returns =>
    match s.tasks i with
    | .gc g =>
      match g.phase with
      | .dropping _ entry _ => some entry
      | _ => none
    | _ => none
  | _ => none

/-- The session whose side tables a step drops. -/
def dropsSideTables (s : State) (e : Event) : Option SessionId :=
  match closes s e with
  | some sid => some sid
  | none => (collects s e).map GcEntry.sid

/-- The sessions that are reclaimed when a stop or a collection returns. -/
def reclaims (s : State) : Event → List SessionId
  | .stop i (.io (.done _)) =>
    match s.tasks i with
    | .stop x => if x.phase = .removing then [x.sid] else []
    | _ => []
  | .gc i (.io (.done _)) =>
    match s.tasks i with
    | .gc g =>
      match g.phase with
      | .removing => g.reclaimed
      | _ => []
    | _ => []
  | _ => []

/-- The table that a cancelled operation has handed to a thread. -/
def outlives (s : State) (e : Event) : Option Sessions :=
  match editOf s e with
  -- the thread of a cancelled save that has not written yet
  | some (edit, .cutSaving reads false) => edit.modify s.mgr (s.mgr.load reads)
  | _ => none

structure Estate where
  server : State
  side : SideTables
  /-- The tables of saves that are still running though their operations were cancelled. -/
  pending : List Sessions
  /-- The sessions that stops and collections have reclaimed. -/
  reclaimed : List SessionId

/-- A step of the server that leads to this state. -/
def Estate.follow (l : Estate) (e : Event) (t : State) : Estate where
  server := t
  side :=
    match dropsSideTables l.server e with
    | some sid => l.side.dropSessionSideTables sid
    | none => l.side
  pending := l.pending ++ (outlives l.server e).toList
  reclaimed := l.reclaimed ++ reclaims l.server e

/-- A save reaches the file. -/
def Estate.land (l : Estate) (sessions : Sessions) : Estate :=
  { l with server := { l.server with mgr := l.server.mgr.save sessions } }

inductive EstateEvent where
  | server (e : Event)
  /-- A tool call writes a side table. -/
  | side (w : SideWrite)
  /-- A save that outlived its operation reaches the file. -/
  | lands (k : ℕ)

def estateStep (l : Estate) : EstateEvent → Option Estate
  | .server e => (machine.step l.server e).map fun t => l.follow e t
  | .side w => some { l with side := w.apply l.side }
  | .lands k =>
    match l.pending[k]? with
    | some sessions => some { l.land sessions with pending := l.pending.eraseIdx k }
    | none => none

def estate : Machine Estate EstateEvent := ⟨estateStep⟩

/-- A server that has just started. -/
def Estate.init (sessions : Sessions) (procs : ℕ → Proc) (nextLauncher : ℕ) : Estate where
  server := Session.init sessions procs nextLauncher
  side := .empty
  pending := []
  reclaimed := []

end Session
