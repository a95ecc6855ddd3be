import PpssppDfx.Session.Edits

/-!
# Saves that outlive their operation

`_save_sessions` runs in a worker thread. A cancelled operation releases the manager's lock
while its thread goes on, so that its table may reach the file after other operations have read
and written it.

The machine is the server with the saves that are still running. A save that reaches the file
between the read and the write of a section is overwritten by it, as if it had never reached the
file.

## Main definitions

* `Session.Lingering`, `Session.lingering` — the machine

## Main results

* `lingering_cases` — a step is one of the server's, or writes a table and does nothing else
-/

set_option autoImplicit false

namespace Session

open Semantics

/-- The table that a cancelled section leaves to its thread, which has not written it yet. -/
def Edit.leaves (m : Manager) (edit : Edit) : Io → Option Sessions
  | .cutSaving reads false => edit.modify m (m.load reads)
  | _ => none

structure Lingering where
  server : State
  /-- The tables of the saves whose operation was cancelled. -/
  saves : List Sessions

inductive LateEvent where
  | server (e : Event)
  | updateWsConnected (sid : SessionId) (connected : Bool) (io : Io)
  /-- A save that outlived its operation reaches the file. -/
  | lands (k : ℕ)
  /-- It reached the file while a section was between its read and its write. -/
  | overtaken (k : ℕ)

/-- The file holds another table. -/
def State.save (s : State) (sessions : Sessions) : State :=
  { s with mgr := s.mgr.save sessions }

/-- The saves that a step leaves running. -/
def State.leaves (s : State) (e : Event) : List Sessions :=
  match editOf s e with
  | some (edit, io) => (edit.leaves s.mgr io).toList
  | none => []

def lingeringStep (l : Lingering) : LateEvent → Option Lingering
  | .server e =>
    (machine.step l.server e).map fun t => ⟨t, l.saves ++ l.server.leaves e⟩
  | .updateWsConnected sid connected io =>
    some ⟨l.server.save (l.server.mgr.updateWsConnected sid connected io).1.sessions,
      l.saves ++ ((Edit.updateWsConnected sid connected).leaves l.server.mgr io).toList⟩
  | .lands k => l.saves[k]?.map fun table => ⟨l.server.save table, l.saves.eraseIdx k⟩
  | .overtaken k => l.saves[k]?.map fun _ => ⟨l.server, l.saves.eraseIdx k⟩

def lingering : Machine Lingering LateEvent := ⟨lingeringStep⟩

/-- A server that has just started. -/
def Lingering.init (sessions : Sessions) (procs : ℕ → Proc) (nextLauncher : ℕ) : Lingering where
  server := Session.init sessions procs nextLauncher
  saves := []

/-- A condition on the steps of the server. -/
def Lingering.When (ok : State → Event → Prop) (l : Lingering) : LateEvent → Prop
  | .server e => ok l.server e
  | _ => True

instance (ok : State → Event → Prop) [∀ s e, Decidable (ok s e)] (l : Lingering) (e : LateEvent) :
    Decidable (l.When ok e) :=
  match e with
  | .server e => inferInstanceAs (Decidable (ok l.server e))
  | .updateWsConnected .. | .lands _ | .overtaken _ => inferInstanceAs (Decidable True)

/-- Steps of the server only. -/
def serverRun (run : List Event) : List LateEvent := run.map .server

variable {l l' : Lingering} {e : LateEvent} {m m' : Manager}

/-- A section changes only the table of records. -/
theorem updateSessions_save {modify : Sessions → Option Sessions} {io : Io}
    {result : SectionResult} (h : m.updateSessions modify io = (m', result)) :
    m' = m.save m'.sessions := by
  rcases Manager.updateSessions_cases h with rfl | ⟨reads, sessions, _, rfl⟩
  · rfl
  · rfl

theorem updateWsConnected_save (m : Manager) (sid : SessionId) (connected : Bool) (io : Io) :
    (m.updateWsConnected sid connected io).1 =
      m.save (m.updateWsConnected sid connected io).1.sessions :=
  updateSessions_save (Prod.eta (m.updateWsConnected sid connected io)).symm

/-- A step is one of the server's, or writes a table and does nothing else. -/
theorem lingering_cases (h : lingering.step l e = some l') :
    (∃ e', e = .server e' ∧ machine.step l.server e' = some l'.server ∧
        l'.saves = l.saves ++ l.server.leaves e') ∨
      ∃ table, l'.server = l.server.save table := by
  replace h : lingeringStep l e = some l' := h
  cases e with
  | server e =>
    obtain ⟨t, ht, rfl⟩ := Option.map_eq_some_iff.mp h
    exact Or.inl ⟨e, rfl, ht, rfl⟩
  | updateWsConnected sid connected io =>
    cases h
    exact Or.inr ⟨_, rfl⟩
  | lands k =>
    obtain ⟨table, -, rfl⟩ := Option.map_eq_some_iff.mp h
    exact Or.inr ⟨table, rfl⟩
  | overtaken k =>
    obtain ⟨_, -, rfl⟩ := Option.map_eq_some_iff.mp h
    exact Or.inr ⟨l.server.mgr.sessions, rfl⟩

end Session
