import Mathlib.Data.List.InsertIdx
import PpssppDfx.Session.Commit
import PpssppDfx.Session.Lingering

/-!
# The calls behind the saves

The server whose file reads and writes succeed, with the saves that outlived their operations,
the sections that made them, the calls that returned and those that have saved and not returned.

## Main definitions

* `Session.Late`, `Session.late` — the machine
* `Session.Quiescent` — no task and no save is under way

## Main results

* `forget_of_reachable` — its runs are runs of the server with late saves
-/

set_option autoImplicit false

namespace Session

open Semantics

/-- A save whose operation was cancelled: the section that made the table, and the manager
in which it ran. -/
structure Pending where
  edit : Edit
  mgr : Manager
  table : Sessions

structure Late where
  server : State
  pending : List Pending
  /-- The calls that have returned. -/
  returned : List OpCall
  /-- The starts that have not returned, and the other calls that were cancelled while they
  saved. -/
  unfinished : List OpCall

/-- The reads and writes of a section succeed. -/
def Io.succeeds : Io → Bool
  | .done reads => reads
  | .saveRaises _ => false
  | .cutEarly => true
  | .cutSaving reads _ => reads

/-- The reads and writes of a step succeed. -/
def Event.succeeds : Event → Bool
  | .tool _ (.checks reads) => reads
  | .tool _ (.touches io _) => io.succeeds
  | .stop _ (.io io) => io.succeeds
  | .gc _ (.io io) => io.succeeds
  | .start _ (.reads ok) => ok
  | .start _ (.io io) => io.succeeds
  | _ => true

namespace Late

variable (l : Late)

/-- A section runs: an operation with one section returns, or is cancelled while it saves. -/
def runs (m : Manager) (edit : Edit) (io : Io) : Late :=
  match edit.modify m m.sessions, io with
  -- a section with nothing to save raises, and its call is not one that returned
  | some _, .done _ => { l with returned := l.returned ++ (edit.op m).toList.map Op.call }
  | some table, .cutSaving _ landed =>
    { l with
      pending := if landed then l.pending else l.pending ++ [⟨edit, m, table⟩]
      unfinished := l.unfinished ++ (edit.op m).toList.map Op.call }
  | _, _ => l

/-- A start that is called has not returned. -/
def starts : Event → Late
  | .callStart sid _ _ => { l with unfinished := l.unfinished ++ [.start sid] }
  | _ => l

/-- A start returns. -/
def finishes (t : State) : Event → Late
  | .start i _ =>
    match t.tasks i with
    | .start u =>
      if u.phase = .returned then
        { l with
          returned := l.returned ++ [.start u.sid]
          unfinished := l.unfinished.erase (.start u.sid) }
      else l
    | _ => l
  | _ => l

/-- A step of the server that leads to this state. -/
def follow (e : Event) (t : State) : Late :=
  let l := (l.starts e).finishes t e
  let l :=
    match editOf l.server e with
    | some (edit, io) => l.runs l.server.mgr edit io
    | none => l
  { l with server := t }

def setSessions (sessions : Sessions) : Late :=
  { l with server := { l.server with mgr := l.server.mgr.save sessions } }

/-- `update_ws_connected`, which also returns when there is no record. -/
def updateWsConnected (sid : SessionId) (connected : Bool) (io : Io) : Late :=
  let edit := Edit.updateWsConnected sid connected
  let l' :=
    match edit.modify l.server.mgr l.server.mgr.sessions, io with
    | none, .done _ => { l with returned := l.returned ++ [OpCall.updateWsConnected sid connected] }
    | _, _ => l.runs l.server.mgr edit io
  l'.setSessions (l.server.mgr.updateWsConnected sid connected io).1.sessions

end Late

def lateStep (l : Late) : LateEvent → Option Late
  | .server e =>
    if e.succeeds then (machine.step l.server e).map fun t => l.follow e t else none
  | .updateWsConnected sid connected io =>
    if io.succeeds then some (l.updateWsConnected sid connected io) else none
  | .lands k =>
    match l.pending[k]? with
    | some p => some { l.setSessions p.table with pending := l.pending.eraseIdx k }
    | none => none
  | .overtaken k =>
    match l.pending[k]? with
    | some _ => some { l with pending := l.pending.eraseIdx k }
    | none => none

def late : Machine Late LateEvent := ⟨lateStep⟩

/-- A server that has just started. -/
def Late.init (sessions : Sessions) (procs : ℕ → Proc) (nextLauncher : ℕ) : Late where
  server := Session.init sessions procs nextLauncher
  pending := []
  returned := []
  unfinished := []

section Forget

variable {l l' : Late} {e : LateEvent}

/-- The server and its saves, without what made them. -/
def Late.forget (l : Late) : Lingering := ⟨l.server, l.pending.map Pending.table⟩

theorem server_runs (l : Late) (m : Manager) (edit : Edit) (io : Io) :
    (l.runs m edit io).server = l.server := by
  unfold Late.runs
  split <;> rfl

/-- What a section whose read succeeds adds to the saves. -/
theorem pending_runs (l : Late) (m : Manager) (edit : Edit) {io : Io} (hio : io.succeeds = true) :
    (l.runs m edit io).pending.map Pending.table =
      l.pending.map Pending.table ++ (edit.leaves m io).toList := by
  unfold Late.runs Edit.leaves
  cases io with
  | done reads => cases edit.modify m m.sessions <;> simp
  | saveRaises reads => exact nomatch hio
  | cutEarly => cases edit.modify m m.sessions <;> simp
  | cutSaving reads landed =>
    obtain rfl : reads = true := hio
    cases landed <;> cases hmodify : edit.modify m m.sessions <;> simp [Manager.load, hmodify]

/-- A section that a step runs succeeds if the step does. -/
theorem succeeds_of_editOf {s : State} {e : Event} {edit : Edit} {io : Io}
    (h : editOf s e = some (edit, io)) (he : e.succeeds = true) : io.succeeds = true := by
  obtain ⟨_, _, _, rfl, -⟩ | ⟨_, _, rfl, -, -⟩ | ⟨_, _, rfl, -, -, -⟩ | ⟨_, _, _, rfl, -, h⟩ :=
    editOf_cases h
  · exact he
  · exact he
  · exact he
  · obtain ⟨-, rfl⟩ := runs_of_edit h
    exact he

theorem pending_follow (l : Late) {e : Event} (t : State) (h : e.succeeds = true) :
    (l.follow e t).pending.map Pending.table =
      l.pending.map Pending.table ++ l.server.leaves e := by
  -- the calls that begin and end leave the server and its saves alone
  have hcalls : ((l.starts e).finishes t e).server = l.server ∧
      ((l.starts e).finishes t e).pending = l.pending := by
    unfold Late.finishes Late.starts
    cases e with
    | start i ev => dsimp only; split <;> [split; skip] <;> exact ⟨rfl, rfl⟩
    | _ => exact ⟨rfl, rfl⟩
  obtain ⟨hserver, hpending⟩ := hcalls
  unfold Late.follow State.leaves
  dsimp only
  rw [hserver]
  cases hedit : editOf l.server e with
  | none => simp [hpending]
  | some made =>
    obtain ⟨edit, io⟩ := made
    have hio := succeeds_of_editOf hedit h
    exact (pending_runs _ l.server.mgr edit hio).trans (by rw [hpending])

theorem pending_updateWsConnected (l : Late) (sid : SessionId) (connected : Bool) {io : Io}
    (hio : io.succeeds = true) :
    (l.updateWsConnected sid connected io).pending.map Pending.table =
      l.pending.map Pending.table ++
        ((Edit.updateWsConnected sid connected).leaves l.server.mgr io).toList := by
  unfold Late.updateWsConnected Late.setSessions
  dsimp only
  split
  next hmodify => simp [Edit.leaves]
  next => exact pending_runs l _ _ hio

/-- A step is one of the server with late saves. -/
theorem forget_lateStep (h : late.step l e = some l') :
    lingering.step l.forget e = some l'.forget := by
  replace h : lateStep l e = some l' := h
  cases e with
  | server e =>
    simp only [lateStep] at h
    split_ifs at h with hsucceeds
    obtain ⟨t, ht, rfl⟩ := Option.map_eq_some_iff.mp h
    have hsaves := pending_follow l t hsucceeds
    simp only [lingering, lingeringStep, Late.forget, ht, Option.map_some, hsaves]
    rfl
  | updateWsConnected sid connected io =>
    simp only [lateStep] at h
    split_ifs at h with hsucceeds
    cases h
    have hsaves := pending_updateWsConnected l sid connected hsucceeds
    have hserver : (l.updateWsConnected sid connected io).server =
        l.server.save (l.server.mgr.updateWsConnected sid connected io).1.sessions := by
      unfold Late.updateWsConnected Late.setSessions State.save
      dsimp only
      split
      next => rfl
      next => rw [server_runs]
    simp only [lingering, lingeringStep, Late.forget, hsaves, hserver]
  | lands k =>
    simp only [lateStep] at h
    split at h
    next p hp =>
      cases h
      simp only [lingering, lingeringStep, Late.forget, List.getElem?_map, hp, Option.map_some,
        List.eraseIdx_map]
      rfl
    next => cases h
  | overtaken k =>
    simp only [lateStep] at h
    split at h
    next p hp =>
      cases h
      simp only [lingering, lingeringStep, Late.forget, List.getElem?_map, hp, Option.map_some,
        List.eraseIdx_map]
    next => cases h

/-- Its runs are runs of the server with late saves. -/
theorem forget_of_reachable (h : late.Reachable l l') : lingering.Reachable l.forget l'.forget := by
  induction h with
  | refl => exact .refl
  | tail _ _ hstep ih => exact .tail ih trivial (forget_lateStep hstep)

end Forget

/-- The task has ended. -/
def Task.ended : Task → Bool
  | .absent => true
  | .tool t => t.phase = .ended
  | .stop t => t.phase = .returned ∨ t.phase = .raised
  | .gc g =>
    match g.phase with
    | .ended => true
    | _ => false
  | .start t => t.phase = .returned ∨ t.phase = .raised

/-- No task and no save is under way. -/
def Quiescent (l : Late) : Prop :=
  l.pending = [] ∧ ∀ i < l.server.nextTask, (l.server.tasks i).ended = true

/-! ## Conditions -/

/-- A start that replaces or discards its record finds the one that it has saved, and nobody
has touched it; a collection removes sessions that are expired or idle. -/
def OwnRecords (s : State) : Event → Prop
  | .start i (.io _) =>
    match s.tasks i with
    | .start t =>
      match t.phase with
      -- a relaunch finds the record of the attempt before it
      | .persisting _ =>
        match s.mgr.sessions.lookup t.sid with
        | some r => r.execCount = 0
        | none => t.attempt = 0
      | .markingConnected | .discarding =>
        ∀ r ∈ s.mgr.sessions.lookup t.sid, r.execCount = 0
      | _ => True
    | _ => True
  | .gc i (.io _) =>
    match s.tasks i with
    | .gc g =>
      match g.phase with
      | .removing => ∀ sid ∈ g.reclaimed, ∀ r ∈ s.mgr.sessions.lookup sid,
          s.mgr.expired r = true ∨ s.mgr.idle r
      | _ => True
    | _ => True
  | _ => True

/-- No section reads the table while a save is running whose operation was cancelled. -/
def Undisturbed (l : Late) : LateEvent → Prop
  | .server e =>
    OwnRecords l.server e ∧
      match editOf l.server e with
      | some (_, .cutEarly) => True
      | some _ => l.pending = []
      | none => True
  | .updateWsConnected _ _ .cutEarly => True
  | .updateWsConnected _ _ _ => l.pending = []
  | _ => True

end Session
