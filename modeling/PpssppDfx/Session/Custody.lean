import PpssppDfx.Session.Inert

/-!
# Where a start keeps its process

A start hands the process it spawns from place to place: the worker thread that spawns
it, the launcher table, the saved record, the handler that stops it. Each await of the
start says in which of these places the process of the current attempt is.

## Main definitions

* `Placed` — where the process is while the start stands at an await
* `Rely` — what the steps of others may do to it

## Main results

* `placed_startStep` — a step that does not lose hold keeps the process in its place
* `kept_of_exit` — when the start exits its process was stopped or is owned
-/

set_option autoImplicit false

namespace Session

open Semantics

/-! ## Ownership -/

/-- The process that the record of a session names. -/
def Manager.recordedPid (m : Manager) (sid : SessionId) : Option ℕ :=
  (m.sessions.lookup sid).bind Record.pid

/-- The process was stopped, or its session owns it by the launcher table or by a record. -/
def Kept (m : Manager) (sid : SessionId) (pid : ℕ) : Prop :=
  m.procs pid ≠ .alive ∨ m.launchers sid = some pid ∨ m.recordedPid sid = some pid

/-- Every process that the start spawned was stopped or is owned, and no thread is about
to spawn one. -/
def LeavesNoOrphan (m : Manager) (t : Start) : Prop :=
  ∀ pid ∈ t.launched, Kept m t.sid pid ∧
    (m.procs pid = .unborn → .spawn t.sid pid ∉ m.workers)

/-! ## The process of the current attempt -/

namespace Start

variable (t : Start) (m m' : Manager)

def Lives : Prop := m.procs t.launcher = .alive

def Born : Prop := m.procs t.launcher ≠ .unborn

def Listed : Prop := m.launchers t.sid = some t.launcher

def Saved : Prop := m.recordedPid t.sid = some t.launcher

/-- A thread whose coroutine was cancelled is stopping the process. -/
def Stopping : Prop := .stop t.sid t.launcher false ∈ m.workers

def Unbound : Prop := m.transports t.sid = none ∧ m.observers t.sid = none

instance : Decidable (t.Lives m) := inferInstanceAs (Decidable (_ = _))

instance : Decidable (t.Listed m) := inferInstanceAs (Decidable (_ = _))

instance : Decidable (t.Saved m) := inferInstanceAs (Decidable (_ = _))

instance : Decidable (t.Stopping m) := inferInstanceAs (Decidable (_ ∈ _))

end Start

/-! ## The condition -/

/-- The section reads the table and its save reaches the file. -/
def Io.lands : Io → Bool
  | .done reads => reads
  | .cutSaving reads landed => reads && landed
  | .saveRaises _ | .cutEarly => false

/-- The step loses hold of a living process: the start is cancelled while the thread
spawns it, `launcher.stop` fails, or the start exits while the thread of a cancelled
`launcher.stop` is still at work and no record names the process. -/
def Start.losesHold (m : Manager) (t : Start) (e : StartEvent) : Bool :=
  match t.phase, e with
  | .spawning, .cancelled => true
  | .stoppingFailed, .raises | .stoppingConflict, .raises | .stoppingWedged _ _, .raises
  | .abandoning _, .raises => decide (t.Lives m)
  | .stoppingWedged _ _, .cancelled => decide (t.Lives m ∧ ¬ t.Saved m)
  | .tearingDown _, .cancelled => decide (t.Lives m ∧ t.Stopping m)
  | .discarding, .io io =>
    decide (t.Lives m ∧ t.Stopping m ∧ (io.lands = true ∨ ¬ t.Saved m))
  | _, _ => false

/-- The process of the attempt, if it lives on, stays in the launcher table, in the
record and in the hands of the thread that stops it. -/
def Start.Keeps (t : Start) (m m' : Manager) : Prop :=
  t.Lives m' → (t.Listed m → t.Listed m') ∧ (t.Saved m → t.Saved m') ∧
    (t.Stopping m → t.Stopping m')

instance (t : Start) (m m' : Manager) : Decidable (t.Keeps m m') :=
  inferInstanceAs (Decidable (_ → _))

/-! ## Where the process is -/

/-- What a teardown knows: after a wedge verdict the process was born and is owned, after
a failure it may be with a thread. -/
def Secured (m : Manager) (t : Start) (own : Prop) : Why → Prop
  | .wedge => t.Born m ∧ (t.Lives m → own)
  | .failure => t.Lives m → own ∨ t.Stopping m

/-- The record is saved, and the process is in both tables while it lives. -/
def Owned (m : Manager) (t : Start) : Prop :=
  t.record.pid = some t.launcher ∧ t.Born m ∧ (t.Lives m → t.Listed m ∧ t.Saved m)

/-- Where the process of the current attempt is. -/
def Placed (m : Manager) (t : Start) : Prop :=
  match t.phase with
  | .spawning | .stoppingFailed | .stoppingConflict => t.Unbound m
  | .persisting _ => t.Unbound m ∧ t.Born m ∧ (t.Lives m → t.Listed m)
  | .probing | .markingConnected | .connecting | .binding | .stoppingHandles _
  | .closingHandles _ | .gateReading | .gateProbing | .gateFolding => Owned m t
  | .tearingDown why => Secured m t (t.Listed m) why ∧ (t.Unbound m ∨ (t.Lives m → t.Saved m))
  | .closing why launcher =>
    Secured m t (launcher = some t.launcher) why ∧ t.Unbound m ∧ (t.Lives m → t.Saved m)
  | .stoppingWedged why n => Secured m t (n = t.launcher) why ∧ t.Unbound m
  | .coolingDown => m.procs t.launcher = .gone ∧ t.Unbound m
  | .abandoning n => Secured m t (n = t.launcher) .failure
  | .discarding => t.Lives m → t.Stopping m
  | .returned | .raised => True

/-- The processes of earlier attempts are gone. -/
def EarlierGone (m : Manager) (t : Start) : Prop :=
  ∀ pid ∈ t.launched, pid ≠ t.launcher → m.procs pid = .gone

/-! ## Steps of others -/

variable {m m' : Manager} {t : Start}

/-- What the steps of others do to a start: they spawn no process under its number, keep
hold of its process, and register no handle for its session. -/
structure Rely (t : Start) (m m' : Manager) : Prop where
  lives : t.Lives m' → t.Lives m
  gone : ∀ pid, m.procs pid = .gone → m'.procs pid = .gone
  born : t.Born m → t.Born m'
  keeps : t.Keeps m m'
  unbound : t.Unbound m → t.Unbound m'

theorem Secured.rely {own own' : Prop} {why : Why} (h : Secured m t own why)
    (hrely : Rely t m m') (hown : t.Lives m' → own → own') : Secured m' t own' why := by
  cases why with
  | wedge => exact ⟨hrely.born h.1, fun hlives => hown hlives (h.2 (hrely.lives hlives))⟩
  | failure =>
    intro hlives
    exact (h (hrely.lives hlives)).imp (hown hlives) (hrely.keeps hlives).2.2

/-- The steps of others leave the process where it is. -/
theorem Placed.rely (h : Placed m t) (hrely : Rely t m m') : Placed m' t := by
  have hlisted (hlives : t.Lives m') : t.Listed m → t.Listed m' := (hrely.keeps hlives).1
  have hsaved (hlives : t.Lives m') : t.Saved m → t.Saved m' := (hrely.keeps hlives).2.1
  revert h
  unfold Placed
  cases t.phase with
  | spawning | stoppingFailed | stoppingConflict => exact hrely.unbound
  | persisting port =>
    rintro ⟨hunbound, hborn, hown⟩
    exact ⟨hrely.unbound hunbound, hrely.born hborn,
      fun hlives => hlisted hlives (hown (hrely.lives hlives))⟩
  | tearingDown why =>
    exact fun h => ⟨h.1.rely hrely hlisted, h.2.imp hrely.unbound
      fun hown hlives => hsaved hlives (hown (hrely.lives hlives))⟩
  | closing why launcher =>
    exact fun h => ⟨h.1.rely hrely fun _ => id, hrely.unbound h.2.1,
      fun hlives => hsaved hlives (h.2.2 (hrely.lives hlives))⟩
  | stoppingWedged why n =>
    exact fun h => ⟨h.1.rely hrely fun _ => id, hrely.unbound h.2⟩
  | coolingDown => exact fun h => ⟨hrely.gone _ h.1, hrely.unbound h.2⟩
  | abandoning n => exact fun h => h.rely hrely fun _ => id
  | discarding =>
    exact fun h hlives => (hrely.keeps hlives).2.2 (h (hrely.lives hlives))
  | returned | raised => exact id
  | probing | markingConnected | connecting | binding | stoppingHandles _ | closingHandles _
  | gateReading | gateProbing | gateFolding =>
    -- in the rest of the phases the process is in both tables
    rintro ⟨hrecord, hborn, hown⟩
    exact ⟨hrecord, hrely.born hborn, fun hlives =>
      ⟨hlisted hlives (hown (hrely.lives hlives)).1, hsaved hlives (hown (hrely.lives hlives)).2⟩⟩

/-! ## Steps of the start -/

theorem Secured.imp {own own' : Prop} {why : Why} (h : Secured m t own why)
    (hown : t.Lives m → own → own') : Secured m t own' why := by
  cases why with
  | wedge => exact ⟨h.1, fun hlives => hown hlives (h.2 hlives)⟩
  | failure => exact fun hlives => (h hlives).imp_left (hown hlives)

theorem not_lives_kill (m : Manager) (t : Start) : ¬ t.Lives (m.kill t.launcher) := by
  unfold Start.Lives Manager.kill
  split
  · simp
  · assumption

/-- A process that lives after a kill lived before, and was not the one killed. -/
theorem lives_of_kill {n : ℕ} (h : t.Lives (m.kill n)) : t.Lives m ∧ n ≠ t.launcher := by
  have hne : n ≠ t.launcher := by
    rintro rfl
    exact not_lives_kill m t h
  have hinert : Inert t.sid m (m.kill n) := inert_kill m n
  exact ⟨hinert.procs _ h, hne⟩

theorem born_kill {n : ℕ} (h : t.Born m) : t.Born (m.kill n) := by
  have hsettles : Settles none none none m (m.kill n) := settles_kill m n
  exact fun hunborn => h (hsettles.unborn _ hunborn)

theorem stopping_kill {n : ℕ} (h : t.Stopping m) : t.Stopping (m.kill n) := by
  unfold Manager.kill
  split <;> exact h

/-- The kill of what is owned leaves nothing behind. -/
theorem Secured.kill {n : ℕ} {why : Why} (h : Secured m t (n = t.launcher) why) :
    Secured (m.kill n) t False why := by
  cases why with
  | wedge =>
    refine ⟨born_kill h.1, fun hlives => ?_⟩
    obtain ⟨hlived, hne⟩ := lives_of_kill hlives
    exact hne (h.2 hlived)
  | failure =>
    intro hlives
    obtain ⟨hlived, hne⟩ := lives_of_kill hlives
    exact Or.inr (stopping_kill ((h hlived).resolve_left hne))

/-- A process that is not alive needs no owner. -/
theorem Secured.of_not_lives {own own' : Prop} {why : Why} (h : Secured m t own why)
    (hlives : ¬ t.Lives m) : Secured m t own' why :=
  h.imp fun hlives' => absurd hlives' hlives

theorem placed_escape (hown : t.Lives m → t.Listed m ∨ t.Stopping m)
    (hbound : t.Unbound m ∨ (t.Lives m → t.Saved m)) : Placed (escape m t).1 (escape m t).2 := by
  unfold escape
  split
  · exact ⟨hown, hbound⟩
  · split
    · rename_i hnone
      intro hlives
      -- nothing is in the launcher table, so a living process is with a thread
      refine (hown hlives).resolve_left fun hlisted => ?_
      exact absurd (hnone.symm.trans hlisted) (by simp)
    · rename_i n hsome
      intro hlives
      refine (hown hlives).imp_left fun hlisted => ?_
      exact Option.some.inj (hsome.symm.trans hlisted)

theorem Owned.escape (h : Owned m t) : Placed (escape m t).1 (escape m t).2 :=
  placed_escape (fun hlives => Or.inl (h.2.2 hlives).1) (Or.inr fun hlives => (h.2.2 hlives).2)

theorem Owned.enterGate (h : Owned m t) : Placed m (enterGate m t) := by
  unfold Session.enterGate
  split
  · split
    · exact ⟨⟨h.2.1, fun hlives => (h.2.2 hlives).1⟩, Or.inr fun hlives => (h.2.2 hlives).2⟩
    · exact h
  · trivial

theorem Owned.afterHandles (h : Owned m t) (notFound : Bool) :
    Placed (afterHandles m t notFound).1 (afterHandles m t notFound).2 := by
  unfold Session.afterHandles
  split
  · exact h.escape
  · exact h.enterGate

/-- A section that keeps the process in the session's record. -/
theorem Owned.update {modify : Sessions → Option Sessions} {io : Io} {result : SectionResult}
    (h : Owned m t) (hupdate : m.updateSessions modify io = (m', result))
    (hmodify : ∀ reads sessions, modify (m.load reads) = some sessions →
      t.Saved m → (sessions.lookup t.sid).bind Record.pid = some t.launcher) : Owned m' t := by
  rcases Manager.updateSessions_cases hupdate with rfl | ⟨reads, sessions, hsome, rfl⟩
  · exact h
  · exact ⟨h.1, h.2.1, fun hlives =>
      ⟨(h.2.2 hlives).1, hmodify reads sessions hsome (h.2.2 hlives).2⟩⟩

/-- A record that was read and is written back names the same process. -/
theorem recordedPid_rewrite {reads : Bool} {f : Record → Record} {sessions : Sessions}
    (hpid : ∀ r, (f r).pid = r.pid)
    (hsome : (((m.load reads).lookup t.sid).map fun r =>
      (m.load reads).insert t.sid (f r)) = some sessions) (hsaved : t.Saved m) :
    (sessions.lookup t.sid).bind Record.pid = some t.launcher := by
  obtain ⟨r, hr, rfl⟩ := Option.map_eq_some_iff.mp hsome
  have hlookup : m.sessions.lookup t.sid = some r := lookup_of_lookup_load hr
  have hnamed : r.pid = some t.launcher := by
    simpa [Start.Saved, Manager.recordedPid, hlookup] using hsaved
  simp [hpid, hnamed]

theorem placed_persist {port : ℕ} (io : Io) (hunbound : t.Unbound m) (hborn : t.Born m)
    (hlisted : t.Lives m → t.Listed m) :
    Placed (persist m t port io).1 (persist m t port io).2 := by
  unfold persist
  dsimp only
  split <;> rename_i heq <;> have hsave := updateSessions_save heq
  · obtain ⟨reads, sessions, hsome, rfl⟩ := Manager.updateSessions_saved heq
    split at hsome
    · exact absurd hsome (by simp)
    · obtain rfl := Option.some.inj hsome
      refine ⟨rfl, hborn, fun hlives => ⟨hlisted hlives, ?_⟩⟩
      simp [Start.Saved, Manager.recordedPid, Manager.save, newRecord]
  · rw [hsave]
    exact hunbound
  · rw [hsave]
    exact placed_escape (fun hlives => Or.inl (hlisted hlives)) (Or.inl hunbound)

theorem Owned.markConnected (h : Owned m t) (io : Io) :
    Placed (markConnected m t io).1 (markConnected m t io).2 := by
  have hupdate {m' : Manager} {result : SectionResult}
      (heq : m.updateSessions (fun sessions =>
        if t.sid ∈ sessions then some (sessions.insert t.sid (t.record.withWsConnected true))
        else none) io = (m', result)) : Owned m' t := by
    refine h.update heq fun reads sessions hsome _ => ?_
    split at hsome
    · obtain rfl := Option.some.inj hsome
      simpa [Record.withWsConnected] using h.1
    · exact absurd hsome (by simp)
  unfold Session.markConnected
  dsimp only
  split <;> rename_i heq
  · exact hupdate heq
  · exact hupdate heq
  · exact (hupdate heq).escape

theorem Owned.register (h : Owned m t) : Owned (m.register t) t := h

theorem Owned.bind (h : Owned m t) (io : Io) :
    Placed (Session.bind m t io).1 (Session.bind m t io).2 := by
  have hupdate {m' : Manager} {result : SectionResult}
      (heq : m.updateSessions (fun sessions =>
        (sessions.lookup t.sid).map fun r => sessions.insert t.sid r) io = (m', result)) :
      Owned m' t :=
    h.update heq fun reads sessions hsome hsaved =>
      recordedPid_rewrite (f := id) (fun _ => rfl) hsome hsaved
  unfold Session.bind
  split <;> rename_i heq
  · exact (hupdate heq).register.enterGate
  · exact hupdate heq
  · exact (hupdate heq).register
  · split
    · exact (hupdate heq).register.escape
    · exact (hupdate heq).escape

theorem Owned.gateRead (h : Owned m t) (reads : Bool) :
    Placed (gateRead m t reads).1 (gateRead m t reads).2 := by
  unfold Session.gateRead
  split
  · exact h
  · exact h.escape

theorem Owned.fold (h : Owned m t) (io : Io) :
    Placed (fold m t io).1 (fold m t io).2 := by
  have hupdate {m' : Manager} {result : SectionResult}
      (heq : m.updateSessions (fun sessions =>
        (sessions.lookup t.sid).map fun r =>
          sessions.insert t.sid { r with recovered := some t.attempt }) io = (m', result)) :
      Owned m' t :=
    h.update heq fun reads sessions hsome hsaved => by
      have hchange (r : Record) : { r with recovered := some t.attempt }.pid = r.pid := rfl
      exact recordedPid_rewrite hchange hsome hsaved
  unfold Session.fold
  split <;> rename_i heq
  · trivial
  · trivial
  · exact (hupdate heq).escape

/-- After the launcher was stopped nothing is owned, so the process is gone or with a
thread. -/
theorem placed_afterTeardown {why : Why} (h : Secured m t False why) (hunbound : t.Unbound m) :
    Placed m (afterTeardown t why) := by
  cases why with
  | failure => exact fun hlives => (h hlives).resolve_left id
  | wedge =>
    obtain ⟨hborn, hlives⟩ := h
    simp only [afterTeardown]
    split
    · refine ⟨?_, hunbound⟩
      -- a wedged attempt had a process, and it does not live any more
      have hcases : m.procs t.launcher = .unborn ∨ m.procs t.launcher = .alive ∨
          m.procs t.launcher = .gone := by
        cases m.procs t.launcher <;> simp
      exact (hcases.resolve_left hborn).resolve_left hlives
    · exact fun hlives' => absurd hlives' hlives

theorem placed_stopPopped {why : Why} {launcher : Option ℕ}
    (h : Secured m t (launcher = some t.launcher) why) (hunbound : t.Unbound m) :
    Placed m (stopPopped t why launcher) := by
  cases launcher with
  | some n => exact ⟨h.imp fun _ => Option.some.inj, hunbound⟩
  | none => exact placed_afterTeardown (h.imp fun _ hnone => absurd hnone (by simp)) hunbound

theorem placed_teardown {why : Why} (h : Secured m t (t.Listed m) why)
    (hbound : t.Unbound m ∨ (t.Lives m → t.Saved m)) :
    Placed (teardown m t why).1 (teardown m t why).2 := by
  have hunbound : t.Unbound (teardown m t why).1 :=
    ⟨by simp [teardown, Manager.setEntry, Manager.popHandles, Manager.popTransport,
      Manager.popObserver, Manager.popLauncher],
     by simp [teardown, Manager.setEntry, Manager.popHandles, Manager.popTransport,
      Manager.popObserver, Manager.popLauncher]⟩
  have hsecured : Secured (teardown m t why).1 t (m.launchers t.sid = some t.launcher) why := by
    cases why with
    | wedge => exact h
    | failure => exact h
  have hclosing : ((m.transports t.sid).isSome || (m.observers t.sid).isSome) = true →
      t.Lives m → t.Saved m := by
    intro hsome
    refine hbound.resolve_left fun hnone => ?_
    rw [hnone.1, hnone.2] at hsome
    exact absurd hsome (by simp)
  simp only [teardown] at hunbound hsecured ⊢
  split
  · exact ⟨hsecured, hunbound, hclosing ‹_›⟩
  · exact placed_stopPopped hsecured hunbound

/-- The process was spawned, and its launcher is registered. -/
theorem placed_spawned (port : ℕ) (hborn : m.procs t.launcher = .unborn) (h : t.Unbound m) :
    Placed { m.spawn t.launcher with
      launchers := Function.update (m.spawn t.launcher).launchers t.sid (some t.launcher) }
      { t with phase := .persisting port } := by
  have hspawn : m.spawn t.launcher =
      { m with procs := Function.update m.procs t.launcher .alive } := if_pos hborn
  rw [hspawn]
  refine ⟨h, ?_, fun _ => ?_⟩
  · simp [Start.Born]
  · simp [Start.Listed]

theorem unbound_spawn {born : Bool} (h : t.Unbound m) :
    t.Unbound (if born then m.spawn t.launcher else m) := by
  unfold Manager.spawn
  split
  · split <;> exact h
  · exact h

/-- A launcher whose process does not live any more has nothing to be owned. -/
theorem placed_escape_of_not_lives (hlives : ¬ t.Lives m) :
    Placed (escape m t).1 (escape m t).2 :=
  placed_escape (fun hlives' => absurd hlives' hlives) (Or.inr fun hlives' => absurd hlives' hlives)

theorem unbound_kill {n : ℕ} (h : t.Unbound m) : t.Unbound (m.kill n) := by
  unfold Manager.kill
  split <;> exact h

theorem stopping_leave (m : Manager) (t : Start) :
    t.Stopping (m.leave (.stop t.sid t.launcher false)) := by
  simp [Start.Stopping, Manager.leave]

/-- A cancelled `launcher.stop` goes on in its thread. -/
theorem placed_escape_of_leave (h : t.Unbound m) :
    Placed (escape (m.leave (.stop t.sid t.launcher false)) t).1
      (escape (m.leave (.stop t.sid t.launcher false)) t).2 :=
  placed_escape (fun _ => Or.inr (stopping_leave m t)) (Or.inl h)

/-- A step by which the start does not lose hold keeps the process in its place. -/
theorem placed_startStep {e : StartEvent} {r : Manager × Start} (hplaced : Placed m t)
    (hholds : t.losesHold m e = false) (h : startStep m t e = some r) : Placed r.1 r.2 := by
  cases takes_of_startStep h
  all_goals
    rename_i hphase
    rw [Placed, hphase] at hplaced
    simp only [Start.losesHold, hphase, decide_eq_false_iff_not] at hholds
  case spawned => exact placed_spawned _ ‹_› hplaced
  case transportClosed =>
    have howned : Owned (m.popTransport t.sid) t := hplaced
    exact howned.afterHandles _
  case gateTimesOut =>
    exact ⟨⟨hplaced.2.1, fun hlives => (hplaced.2.2 hlives).1⟩,
      Or.inr fun hlives => (hplaced.2.2 hlives).2⟩
  case relaunches => exact hplaced.2
  case abandonedStopped => exact fun hlives => (hplaced.kill hlives).resolve_left id
  case abandonedRaises => exact fun hlives => absurd hlives hholds
  case abandonedCancelled =>
    intro hlives
    rcases hplaced hlives with rfl | hstopping
    · exact stopping_leave m t
    · exact List.mem_append_left _ hstopping
  all_goals first
    | trivial
    | exact hplaced
    | exact unbound_spawn hplaced
    | exact hplaced.escape
    | exact hplaced.enterGate
    | exact hplaced.afterHandles _
    | exact hplaced.markConnected _
    | exact hplaced.bind _
    | exact hplaced.gateRead _
    | exact hplaced.fold _
    | exact placed_escape_of_not_lives (not_lives_kill m t)
    | exact placed_escape_of_not_lives hholds
    | exact placed_escape_of_leave hplaced
    | exact placed_persist _ hplaced.1 hplaced.2.1 hplaced.2.2
    | exact placed_teardown hplaced.1 hplaced.2
    | exact placed_stopPopped hplaced.1 hplaced.2.1
    | exact placed_afterTeardown hplaced.1.kill (unbound_kill hplaced.2)
    | exact placed_afterTeardown (hplaced.1.of_not_lives hholds) hplaced.2

/-! ## Exits -/

theorem escape_not_raised (m : Manager) (t : Start) : (escape m t).2.phase ≠ .raised := by
  unfold escape
  split
  · simp
  · split <;> simp

theorem enterGate_not_raised (m : Manager) (t : Start) : (enterGate m t).phase ≠ .raised := by
  unfold enterGate
  split
  · split <;> simp
  · simp

theorem afterHandles_not_raised (m : Manager) (t : Start) (notFound : Bool) :
    (afterHandles m t notFound).2.phase ≠ .raised := by
  unfold afterHandles
  split
  · exact escape_not_raised m t
  · exact enterGate_not_raised m t

theorem afterTeardown_not_raised (t : Start) (why : Why) :
    (afterTeardown t why).phase ≠ .raised := by
  cases why with
  | failure => simp [afterTeardown]
  | wedge =>
    simp only [afterTeardown]
    split <;> simp

theorem stopPopped_not_raised (t : Start) (why : Why) (launcher : Option ℕ) :
    (stopPopped t why launcher).phase ≠ .raised := by
  cases launcher with
  | some n => simp [stopPopped]
  | none => exact afterTeardown_not_raised t why

theorem teardown_not_raised (m : Manager) (t : Start) (why : Why) :
    (teardown m t why).2.phase ≠ .raised := by
  simp only [teardown]
  split
  · simp
  · exact stopPopped_not_raised t why _

theorem persist_not_raised (m : Manager) (t : Start) (port : ℕ) (io : Io) :
    (persist m t port io).2.phase ≠ .raised := by
  unfold persist
  dsimp only
  split
  · simp
  · simp
  · exact escape_not_raised _ t

theorem markConnected_not_raised (m : Manager) (t : Start) (io : Io) :
    (markConnected m t io).2.phase ≠ .raised := by
  unfold markConnected
  dsimp only
  split
  · simp
  · simp
  · exact escape_not_raised _ t

theorem bind_not_raised (m : Manager) (t : Start) (io : Io) :
    (bind m t io).2.phase ≠ .raised := by
  unfold bind
  split
  · exact enterGate_not_raised _ t
  · simp
  · simp
  · exact escape_not_raised _ t

theorem gateRead_not_raised (m : Manager) (t : Start) (reads : Bool) :
    (gateRead m t reads).2.phase ≠ .raised := by
  unfold gateRead
  split
  · simp
  · exact escape_not_raised m t

theorem fold_not_raised (m : Manager) (t : Start) (io : Io) :
    (fold m t io).2.phase ≠ .raised := by
  unfold fold
  split
  · simp
  · simp
  · exact escape_not_raised _ t

/-- A section that does not reach the file leaves the record. -/
theorem saved_discard {io : Io} (hlands : io.lands = false) (h : t.Saved m) :
    t.Saved (discard m t io).1 := by
  have hsame (reads : Bool) (hreads : reads = false) :
      (if t.sid ∈ m.load reads then some ((m.load reads).erase t.sid) else none) = none := by
    subst hreads
    exact if_neg (AList.notMem_empty t.sid)
  cases io with
  | cutEarly => exact h
  | done reads =>
    have hnone := hsame reads hlands
    simpa [discard, Manager.updateSessions, hnone] using h
  | saveRaises reads =>
    simp only [discard, Manager.updateSessions]
    split <;> exact h
  | cutSaving reads landed =>
    simp only [Io.lands, Bool.and_eq_false_iff] at hlands
    simp only [discard, Manager.updateSessions]
    rcases hlands with hreads | hlanded
    · have hnone := hsame reads hreads
      simpa [hnone] using h
    · split
      · exact h
      · simpa [hlanded] using h

/-- A start that exits has its process stopped or owned. -/
theorem kept_of_exit {e : StartEvent} {r : Manager × Start} (hplaced : Placed m t)
    (hholds : t.losesHold m e = false) (h : startStep m t e = some r)
    (hexit : r.2.phase = .raised) : t.Lives r.1 → t.Listed r.1 ∨ t.Saved r.1 := by
  cases takes_of_startStep h
  all_goals
    rename_i hphase
    rw [Placed, hphase] at hplaced
    simp only [Start.losesHold, hphase, decide_eq_false_iff_not] at hholds
  -- The steps by which a start exits.
  case teardownCancelled why =>
    intro hlives
    have hstopping : ¬ t.Stopping m := fun hstopping => hholds ⟨hlives, hstopping⟩
    cases why with
    | wedge => exact Or.inl (hplaced.1.2 hlives)
    | failure => exact Or.inl ((hplaced.1 hlives).resolve_right hstopping)
  case handlesCancelled => exact fun hlives => Or.inr (hplaced.2.2 hlives)
  case poppedCancelled =>
    intro hlives
    exact Or.inr (Decidable.not_not.mp fun hsaved => hholds ⟨hlives, hsaved⟩)
  case coolingCancelled =>
    intro hlives
    exact absurd (hplaced.1.symm.trans hlives) (by simp)
  case discards io =>
    intro hlives
    have hsave := updateSessions_save (Prod.eta (m.updateSessions (fun sessions =>
      if t.sid ∈ sessions then some (sessions.erase t.sid) else none) io)).symm
    have hlived : t.Lives m := by
      have hlives' : t.Lives (m.updateSessions (fun sessions =>
        if t.sid ∈ sessions then some (sessions.erase t.sid) else none) io).1 := hlives
      rw [hsave] at hlives'
      exact hlives'
    have hneither : ¬ (io.lands = true ∨ ¬ t.Saved m) := fun hlost =>
      hholds ⟨hlived, hplaced hlived, hlost⟩
    refine Or.inr (saved_discard ?_ (Decidable.not_not.mp fun hsaved => hneither (Or.inr hsaved)))
    exact Bool.eq_false_iff.mpr fun hlands => hneither (Or.inl hlands)
  all_goals exfalso
  all_goals first
    | exact StartPhase.noConfusion hexit
    | exact escape_not_raised _ t hexit
    | exact enterGate_not_raised _ t hexit
    | exact afterHandles_not_raised _ t _ hexit
    | exact afterTeardown_not_raised t _ hexit
    | exact stopPopped_not_raised t _ _ hexit
    | exact teardown_not_raised m t _ hexit
    | exact persist_not_raised m t _ _ hexit
    | exact markConnected_not_raised m t _ hexit
    | exact bind_not_raised m t _ hexit
    | exact gateRead_not_raised m t _ hexit
    | exact fold_not_raised m t _ hexit

end Session
