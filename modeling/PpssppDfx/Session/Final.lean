import PpssppDfx.Session.Inert

/-!
# Whether a stop is final

`stop_session` removes a session whose start may still be under way. It leaves the start
alone: the process it killed and the transport it closed look like a wedged attempt, and
a start with budget left launches the session again under the id that was stopped. A save that
outlived a cancelled operation puts the record back if it still has it.

## Main results

* `stopFinal_of_reaches` — after a stop returned, the session's start puts nothing back
  and launches nothing, in runs where no stop returns while the start is about to launch or a
  save with its record is still running, and no later wedge is judged with budget left
* `relaunches_after_stop` — a run in which a start puts a stopped session back
-/

set_option autoImplicit false

namespace Session

open Semantics

/-! ## Steps of a start -/

variable {m m' : Manager}

def Worker.spawns (sid : SessionId) : Worker → Bool
  | .spawn other _ => decide (other = sid)
  | .stop _ _ _ => false

/-- The event is a step of a start of the session, or of a thread that such a start left. -/
def Event.ofStart (s : State) (sid : SessionId) : Event → Prop
  | .start i _ => (s.tasks i).starts sid = true
  | .worker w _ => w.spawns sid = true
  | _ => False

/-- The same with late saves, any of which may be one that a start left. -/
def LateEvent.ofStart (l : Lingering) (sid : SessionId) : LateEvent → Prop
  | .server e => e.ofStart l.server sid
  | .lands _ => True
  | .updateWsConnected .. | .overtaken _ => False

/-- A session whose stop returned has no record, and no step of its start gives it a
record or a handle, or launches a process; nor does a late save. -/
def StopFinal (l : Lingering) : Prop :=
  ∀ sid ∈ l.server.mgr.stopped, l.server.mgr.sessions.lookup sid = none ∧
    ∀ (e : LateEvent) (l' : Lingering), e.ofStart l sid → lingering.step l e = some l' →
      Inert sid l.server.mgr l'.server.mgr

/-! ## The condition -/

/-- The start is about to launch, or launched and did not save the record: it stands
between the first launch or a wedge verdict with budget left, and the attempt's save. -/
def Start.relaunches (t : Start) : Bool :=
  match t.phase with
  | .spawning | .persisting _ | .coolingDown => true
  | .tearingDown .wedge | .closing .wedge _ | .stoppingWedged .wedge _ => t.hasBudget
  | _ => false

/-- The step judges the attempt wedged. -/
def Start.judgedWedged (m : Manager) (t : Start) (e : StartEvent) : Bool :=
  match t.phase, e with
  | .probing, .returns | .probing, .raises | .stoppingHandles false, .raises
  | .stoppingHandles false, .cancelled | .closingHandles false, .raises
  | .closingHandles false, .cancelled => t.resilient && (m.transports t.sid).isNone
  | .closingHandles false, .returns => t.resilient
  | .gateProbing, .timesOut => true
  | _, _ => false

def Task.relaunches (sid : SessionId) : Task → Bool
  | .start t => decide (t.sid = sid) && t.relaunches
  | _ => false

/-- A start of the session relaunches, or left a thread that spawns a process. -/
def State.relaunches (s : State) (sid : SessionId) : Bool :=
  ((List.range s.nextTask).any fun i => (s.tasks i).relaunches sid) ||
    s.mgr.workers.any (Worker.spawns sid)

/-- The session whose `stop_session` returns by the step. -/
def returning (s : State) : Event → Option SessionId
  | .stop i o =>
    match s.tasks i with
    | .stop t => t.returning o
    | _ => none
  | _ => none

/-- The session whose attempt the step judges wedged, with budget for another one. -/
def wedged (s : State) : Event → Option SessionId
  | .start i e =>
    match s.tasks i with
    | .start t => if t.judgedWedged s.mgr e && t.hasBudget then some t.sid else none
    | _ => none
  | _ => none

/-- No stop returns while a start of its session relaunches, and no attempt of a stopped
session is judged wedged with budget left. -/
def StopIsLast (s : State) (e : Event) : Prop :=
  (∀ sid ∈ returning s e, s.relaunches sid = false) ∧ ∀ sid ∈ wedged s e, sid ∉ s.mgr.stopped

instance (s : State) (e : Event) : Decidable (StopIsLast s e) :=
  inferInstanceAs (Decidable ((∀ sid ∈ returning s e, _) ∧ ∀ sid ∈ wedged s e, _))

/-- And no stop returns while a late save that is still running has the record of its session. -/
def StopIsLastLate (l : Lingering) : LateEvent → Prop
  | .server e => StopIsLast l.server e ∧
      ∀ sid ∈ returning l.server e, ∀ table ∈ l.saves, sid ∉ table
  | .updateWsConnected .. | .lands _ | .overtaken _ => True

instance (l : Lingering) (e : LateEvent) : Decidable (StopIsLastLate l e) :=
  match e with
  | .server e => inferInstanceAs (Decidable (StopIsLast l.server e ∧
      ∀ sid ∈ returning l.server e, _))
  | .updateWsConnected .. | .lands _ | .overtaken _ => inferInstanceAs (Decidable True)

/-! ## Invariant -/

/-- The session is gone for good: no record, no start that relaunches, no thread that
spawns. -/
structure StaysDown (s : State) (sid : SessionId) : Prop where
  record : s.mgr.sessions.lookup sid = none
  starts : ∀ i x, s.tasks i = .start x → x.sid = sid → x.relaunches = false
  workers : ∀ n, Worker.spawn sid n ∉ s.mgr.workers

/-- Stopped sessions stay down. -/
def StoppedStayDown (s : State) : Prop := ∀ sid ∈ s.mgr.stopped, StaysDown s sid

/-! ## Inert steps -/

variable {sid : SessionId} {x : Start} {e : StartEvent} {r : Manager × Start}

theorem inert_escape (m : Manager) (x : Start) : Inert x.sid m (escape m x).1 := by
  unfold escape
  split
  · exact .refl m
  · split
    · exact .refl m
    · exact inert_popLauncher m x.sid

theorem inert_afterHandles (m : Manager) (x : Start) (notFound : Bool) :
    Inert x.sid m (afterHandles m x notFound).1 := by
  unfold afterHandles
  split
  · exact inert_escape m x
  · exact .refl m

theorem inert_gateRead (m : Manager) (x : Start) (reads : Bool) :
    Inert x.sid m (gateRead m x reads).1 := by
  unfold gateRead
  split
  · exact .refl m
  · exact inert_escape m x

theorem inert_teardown (m : Manager) (x : Start) (why : Why) :
    Inert x.sid m (teardown m x why).1 :=
  (inert_popHandles m x.sid).trans (inert_setEntry _ _ _)

theorem inert_markConnected (hnone : m.sessions.lookup x.sid = none) (io : Io) :
    Inert x.sid m (markConnected m x io).1 := by
  have habsent (reads : Bool) : x.sid ∉ m.load reads :=
    AList.lookup_eq_none.mp (lookup_load_none hnone reads)
  unfold markConnected
  dsimp only
  split <;> rename_i heq <;>
    obtain ⟨rfl, _⟩ := updateSessions_none (fun reads => if_neg (habsent reads)) heq
  · exact .refl _
  · exact .refl _
  · exact inert_escape _ x

theorem inert_bind (hnone : m.sessions.lookup x.sid = none) (io : Io) :
    Inert x.sid m (bind m x io).1 := by
  have habsent (reads : Bool) : ((m.load reads).lookup x.sid).map
      (fun r => (m.load reads).insert x.sid r) = none := by
    rw [lookup_load_none hnone reads, Option.map_none]
  unfold bind
  split <;> rename_i heq <;> obtain ⟨rfl, hresult⟩ := updateSessions_none habsent heq
  · exact absurd hresult (by simp)
  · exact .refl _
  · exact absurd hresult (by simp)
  · obtain rfl : _ = false := by simpa using hresult
    exact inert_escape _ x

theorem inert_fold (hnone : m.sessions.lookup x.sid = none) (io : Io) :
    Inert x.sid m (fold m x io).1 := by
  have habsent (reads : Bool) : ((m.load reads).lookup x.sid).map
      (fun r => (m.load reads).insert x.sid { r with recovered := some x.attempt }) = none := by
    rw [lookup_load_none hnone reads, Option.map_none]
  unfold fold
  split <;> rename_i heq <;> obtain ⟨rfl, _⟩ := updateSessions_none habsent heq
  · exact .refl _
  · exact .refl _
  · exact inert_escape _ x

theorem inert_discard (hnone : m.sessions.lookup x.sid = none) (io : Io) :
    Inert x.sid m (discard m x io).1 := by
  have habsent (reads : Bool) : x.sid ∉ m.load reads :=
    AList.lookup_eq_none.mp (lookup_load_none hnone reads)
  have hdiscard (m' : Manager) (result : SectionResult)
      (h : m.updateSessions (fun sessions =>
        if x.sid ∈ sessions then some (sessions.erase x.sid) else none) io = (m', result)) :
      Inert x.sid m m' := by
    obtain ⟨rfl, _⟩ := updateSessions_none (fun reads => if_neg (habsent reads)) h
    exact .refl m'
  exact hdiscard _ _ rfl

/-- A start whose session has no record, and that does not relaunch, is inert. -/
theorem inert_startStep (hnone : m.sessions.lookup x.sid = none)
    (hrelaunches : x.relaunches = false) (h : startStep m x e = some r) :
    Inert x.sid m r.1 := by
  cases takes_of_startStep h with
  -- The phases of a launch.
  | spawned _ hphase | spawnRaises hphase | spawnCancelled hphase | persists hphase
  | relaunches hphase => exact absurd hrelaunches (by simp [Start.relaunches, hphase])
  | _ =>
    first
      | exact .refl m
      | exact inert_popObserver m x.sid
      | exact inert_kill m _
      | exact inert_leave m _
      | exact inert_escape m x
      | exact (inert_kill m _).trans (inert_escape _ x)
      | exact (inert_leave m _).trans (inert_escape _ x)
      | exact inert_markConnected hnone _
      | exact inert_bind hnone _
      | exact inert_afterHandles m x _
      | exact (inert_popTransport m _).trans (inert_afterHandles _ x _)
      | exact inert_gateRead m x _
      | exact inert_fold hnone _
      | exact inert_teardown m x _
      | exact inert_discard hnone _

/-! ## Which steps relaunch -/

/-- An exception other than a wedge ends the start. -/
theorem relaunches_escape (m : Manager) (x : Start) : (escape m x).2.relaunches = false := by
  unfold escape
  split
  · rfl
  · split <;> rfl

/-- The gate relaunches an attempt that has no transport, if there is budget. -/
theorem relaunches_enterGate (h : (enterGate m x).relaunches = true) :
    x.resilient = true ∧ m.transports x.sid = none ∧ x.hasBudget = true := by
  unfold enterGate at h
  split at h
  · rename_i hresilient
    split at h
    · rename_i htransport
      exact ⟨hresilient, htransport, h⟩
    · exact absurd h (by simp [Start.relaunches])
  · exact absurd h (by simp [Start.relaunches])

theorem relaunches_afterHandles {notFound : Bool}
    (h : (afterHandles m x notFound).2.relaunches = true) :
    notFound = false ∧ x.resilient = true ∧ m.transports x.sid = none ∧ x.hasBudget = true := by
  unfold afterHandles at h
  split at h
  · exact absurd h (by simp [relaunches_escape])
  · rename_i hfound
    exact ⟨by simpa using hfound, relaunches_enterGate h⟩

theorem relaunches_afterTeardown {why : Why} (h : (afterTeardown x why).relaunches = true) :
    why = .wedge ∧ x.hasBudget = true := by
  cases why with
  | failure => exact absurd h (by simp [afterTeardown, Start.relaunches])
  | wedge =>
    simp only [afterTeardown] at h
    split at h
    · exact ⟨rfl, ‹_›⟩
    · exact absurd h (by simp [Start.relaunches])

theorem relaunches_stopPopped {why : Why} {launcher : Option ℕ}
    (h : (stopPopped x why launcher).relaunches = true) : why = .wedge ∧ x.hasBudget = true := by
  cases launcher with
  | none => exact relaunches_afterTeardown h
  | some n =>
    cases why with
    | wedge => exact ⟨rfl, h⟩
    | failure => exact absurd h (by simp [stopPopped, Start.relaunches])

theorem relaunches_teardown {why : Why} (h : (teardown m x why).2.relaunches = true) :
    why = .wedge ∧ x.hasBudget = true := by
  simp only [teardown] at h
  split at h
  · cases why with
    | wedge => exact ⟨rfl, h⟩
    | failure => exact absurd h (by simp [Start.relaunches])
  · exact relaunches_stopPopped h

theorem relaunches_markConnected (m : Manager) (x : Start) (io : Io) :
    (markConnected m x io).2.relaunches = false := by
  unfold markConnected
  dsimp only
  split <;> first | rfl | exact relaunches_escape _ x

/-- An attempt that registered its transport is not wedged at once. -/
theorem relaunches_bind (m : Manager) (x : Start) (io : Io) :
    (bind m x io).2.relaunches = false := by
  unfold bind
  split
  · rename_i m₁ _
    refine Bool.eq_false_iff.mpr fun hrelaunches => ?_
    have hnone : (m₁.register x).transports x.sid = none := (relaunches_enterGate hrelaunches).2.1
    exact absurd hnone (by simp [Manager.register])
  · rfl
  · rfl
  · exact relaunches_escape _ x

theorem relaunches_gateRead (m : Manager) (x : Start) (reads : Bool) :
    (gateRead m x reads).2.relaunches = false := by
  unfold gateRead
  split
  · rfl
  · exact relaunches_escape m x

theorem relaunches_fold (m : Manager) (x : Start) (io : Io) :
    (fold m x io).2.relaunches = false := by
  unfold fold
  split <;> first | rfl | exact relaunches_escape _ x

/-- A start begins to relaunch only as it judges an attempt wedged with budget left. -/
theorem judgedWedged_of_relaunches (h : startStep m x e = some r)
    (hbefore : x.relaunches = false) (hafter : r.2.relaunches = true) :
    x.judgedWedged m e = true ∧ x.hasBudget = true := by
  cases takes_of_startStep h with
  -- The phases of a launch.
  | spawned _ hphase | spawnRaises hphase | spawnCancelled hphase | persists hphase
  | relaunches hphase => exact absurd hbefore (by simp [Start.relaunches, hphase])
  -- The gate after a probe that did not connect.
  | probeReturns hphase | probeRaises hphase =>
    obtain ⟨hresilient, htransport, hbudget⟩ := relaunches_enterGate hafter
    exact ⟨by simp [Start.judgedWedged, hphase, hresilient, htransport], hbudget⟩
  -- The gate after the handles were closed.
  | observerRaises hphase | observerCancelled hphase | transportRaises hphase
  | transportCancelled hphase =>
    obtain ⟨rfl, hresilient, htransport, hbudget⟩ := relaunches_afterHandles hafter
    exact ⟨by simp [Start.judgedWedged, hphase, hresilient, htransport], hbudget⟩
  | transportClosed hphase =>
    obtain ⟨rfl, hresilient, _, hbudget⟩ := relaunches_afterHandles hafter
    exact ⟨by simp [Start.judgedWedged, hphase, hresilient], hbudget⟩
  | gateTimesOut hphase => exact ⟨by simp [Start.judgedWedged, hphase], hafter⟩
  -- A teardown that leads to a relaunch was one already.
  | tornDown hphase =>
    obtain ⟨rfl, hbudget⟩ := relaunches_teardown hafter
    exact absurd hbefore (by simp [Start.relaunches, hphase, hbudget])
  | handlesClosed hphase | handlesRaise hphase =>
    obtain ⟨rfl, hbudget⟩ := relaunches_stopPopped hafter
    exact absurd hbefore (by simp [Start.relaunches, hphase, hbudget])
  | poppedStopped hphase | poppedRaises hphase =>
    obtain ⟨rfl, hbudget⟩ := relaunches_afterTeardown hafter
    exact absurd hbefore (by simp [Start.relaunches, hphase, hbudget])
  | _ =>
    refine absurd hafter (Bool.eq_false_iff.mp ?_)
    first
      | rfl
      | exact relaunches_escape _ x
      | exact relaunches_markConnected m x _
      | exact relaunches_bind m x _
      | exact relaunches_gateRead m x _
      | exact relaunches_fold m x _

/-! ## Preservation -/

variable {s t : State}

/-- A session that does not relaunch has no start that does and no spawning thread. -/
theorem of_relaunches_eq_false (hfresh : TasksFresh s) (h : s.relaunches sid = false) :
    (∀ i y, s.tasks i = .start y → y.sid = sid → y.relaunches = false) ∧
      ∀ n, Worker.spawn sid n ∉ s.mgr.workers := by
  simp only [State.relaunches, Bool.or_eq_false_iff, List.any_eq_false, List.mem_range] at h
  obtain ⟨htasks, hworkers⟩ := h
  refine ⟨fun i y hi hsid => ?_, fun n hn => ?_⟩
  · have hlt : i < s.nextTask := by
      refine Nat.lt_of_not_le fun hle => ?_
      exact absurd (hi.symm.trans (hfresh i hle)) (by simp)
    have hquiet := htasks i hlt
    rw [hi] at hquiet
    simpa [Task.relaunches, hsid] using hquiet
  · exact hworkers _ hn (by simp [Worker.spawns])

/-- Apart from the sessions that are named, no record, spawning thread or finished stop
is added. -/
structure Recedes (newer spawning returned : Option SessionId) (m m' : Manager) : Prop where
  records : ∀ sid, newer ≠ some sid → m.sessions.lookup sid = none → m'.sessions.lookup sid = none
  spawns : ∀ sid n, .spawn sid n ∈ m'.workers → spawning = some sid ∨ .spawn sid n ∈ m.workers
  stopped : ∀ sid ∈ m'.stopped, returned = some sid ∨ sid ∈ m.stopped

theorem Frame.recedes {newer spawning returned : Option SessionId}
    (h : Frame newer spawning returned m m') : Recedes newer spawning returned m m' where
  records := by
    refine fun sid hnewer hnone => Option.eq_none_iff_forall_not_mem.mpr fun r' hr' => ?_
    rcases h.records sid r' hr' with heq | ⟨r, hr, _⟩
    · exact hnewer heq
    · exact absurd (hnone.symm.trans hr) (by simp)
  spawns := h.spawns
  stopped := h.stopped

/-- The collector gives no session a record and spawns nothing. -/
theorem recedes_gcStep {g : Gc} {o : Outcome} {q : Manager × Gc} (h : gcStep m g o = some q) :
    Recedes none none none m q.1 := by
  have hcases : (Settles none none none m q.1 ∧ _) ∨ _ := gcStep_cases h
  rcases hcases with ⟨hsettles, _⟩ | ⟨_, _, _, _, rfl⟩ | ⟨d, _, rfl⟩
  · exact hsettles.toFrame.recedes
  · exact (Frame.refl m).recedes
  · exact ⟨fun _ _ => id, fun _ _ hw => Or.inr (by simpa [Manager.leave] using hw),
      fun _ => Or.inr⟩

/-- A step keeps a session down that it does not touch and for which it leaves no thread. -/
theorem StaysDown.step {newer spawning returned : Option SessionId} (h : StaysDown s sid)
    (hrecedes : Recedes newer spawning returned s.mgr t.mgr) (hnewer : newer ≠ some sid)
    (hspawning : spawning ≠ some sid)
    (hstarts : ∀ i y, t.tasks i = .start y → y.sid = sid → y.relaunches = true →
      s.tasks i = .start y) : StaysDown t sid where
  record := hrecedes.records sid hnewer h.record
  starts := by
    intro i y hi hsid
    refine Bool.eq_false_iff.mpr fun hrelaunches => ?_
    exact absurd (h.starts i y (hstarts i y hi hsid hrelaunches) hsid) (by simp [hrelaunches])
  workers := fun n hn => (hrecedes.spawns sid n hn).elim hspawning (h.workers n)

/-- A step by which no stop returns, and which touches no session that is down. -/
theorem StoppedStayDown.step {newer spawning : Option SessionId} (h : StoppedStayDown s)
    (hrecedes : Recedes newer spawning none s.mgr t.mgr)
    (hnewer : ∀ sid, StaysDown s sid → newer ≠ some sid)
    (hspawning : ∀ sid, StaysDown s sid → spawning ≠ some sid)
    (hstarts : ∀ sid ∈ s.mgr.stopped, ∀ i y, t.tasks i = .start y → y.sid = sid →
      y.relaunches = true → s.tasks i = .start y) : StoppedStayDown t := by
  intro sid hsid
  have hstopped : sid ∈ s.mgr.stopped := (hrecedes.stopped sid hsid).resolve_left (by simp)
  have hdown : StaysDown s sid := h sid hstopped
  exact hdown.step hrecedes (hnewer sid hdown) (hspawning sid hdown) (hstarts sid hstopped)

/-- A task that is no start goes on. -/
theorem StoppedStayDown.setTask {newer : Option SessionId} (h : StoppedStayDown s)
    (hrecedes : Recedes newer none none s.mgr m)
    (hnewer : ∀ sid, StaysDown s sid → newer ≠ some sid)
    {i : TaskId} {task : Task} (htask : ∀ y, task ≠ .start y) :
    StoppedStayDown (s.setTask m i task) := by
  refine h.step hrecedes hnewer (by simp) fun sid _ j y hj _ _ => ?_
  by_cases hji : j = i
  · subst hji
    simp only [State.setTask, Function.update_self] at hj
    exact absurd hj (htask y)
  · simpa only [State.setTask, Function.update_of_ne hji] using hj

/-- A new task, which starts no stopped session. -/
theorem StoppedStayDown.addTask (h : StoppedStayDown s) {task : Task}
    (htask : ∀ y, task = .start y → y.sid ∉ s.mgr.stopped) : StoppedStayDown (s.addTask task) := by
  have hrecedes : Recedes none none none s.mgr (s.addTask task).mgr := (Frame.refl s.mgr).recedes
  refine h.step hrecedes (by simp) (by simp) fun sid hsid j y hj hy _ => ?_
  by_cases hji : j = s.nextTask
  · subst hji
    simp only [State.addTask, Function.update_self] at hj
    exact absurd hsid (hy ▸ htask y hj)
  · simpa only [State.addTask, Function.update_of_ne hji] using hj

theorem StoppedStayDown.setMgr (h : StoppedStayDown s) (hframe : Frame none none none s.mgr m) :
    StoppedStayDown { s with mgr := m } :=
  h.step hframe.recedes (by simp) (by simp) fun _ _ _ _ hj _ _ => hj

/-- A tool and a start touch only sessions that have a record, or relaunch. -/
theorem touched_tool_ne (hnone : m.sessions.lookup sid = none) (y : Tool) (e : ToolEvent) :
    y.touched m e ≠ some sid := by
  unfold Tool.touched
  split
  · split
    · split
      · simp
      · rename_i hlookup
        rintro ⟨⟩
        exact hlookup (Or.inr (by simp [hnone]))
    · simp
  · simp

theorem touched_start_ne (hnone : m.sessions.lookup x.sid = none)
    (hrelaunches : x.relaunches = false) (e : StartEvent) : x.touched m e ≠ some x.sid := by
  unfold Start.touched
  split
  · split
    · rename_i hphase
      exact absurd hrelaunches (by simp [Start.relaunches, hphase])
    · simp [hnone]
    · simp
  · simp

theorem leavesSpawn_ne (hrelaunches : x.relaunches = false) (e : StartEvent) :
    x.leavesSpawn e ≠ some x.sid := by
  unfold Start.leavesSpawn
  split
  · split
    · rename_i hphase
      exact absurd hrelaunches (by simp [Start.relaunches, hphase])
    · simp
  · simp

/-- The touch and the thread of a start's step are its own session's. -/
theorem touched_start_eq (h : x.touched m e = some sid) : sid = x.sid := by
  unfold Start.touched at h
  split at h
  · split at h
    · split at h
      · exact absurd h (by simp)
      · exact (Option.some.inj h).symm
    · split at h
      · exact (Option.some.inj h).symm
      · exact absurd h (by simp)
    · exact absurd h (by simp)
  · exact absurd h (by simp)

theorem leavesSpawn_eq (h : x.leavesSpawn e = some sid) : sid = x.sid := by
  unfold Start.leavesSpawn at h
  split at h
  · split at h
    · exact (Option.some.inj h).symm
    · exact absurd h (by simp)
  · exact absurd h (by simp)

/-- A start that goes on as the condition has it. -/
theorem stoppedStayDown_start {i : TaskId} (h : StoppedStayDown s) (hi : s.tasks i = .start x)
    (hguard : StopIsLast s (.start i e)) (hr : startStep s.mgr x e = some r) :
    StoppedStayDown (s.setTask r.1 i (.start r.2)) := by
  have hsettles : Settles (x.touched s.mgr e) (x.leavesSpawn e) none s.mgr r.1 :=
    settles_startStep hr
  refine h.step hsettles.toFrame.recedes (fun sid hdown heq => ?_) (fun sid hdown heq => ?_)
    fun sid hsid j y hj hy hrelaunches => ?_
  · obtain rfl := touched_start_eq heq
    exact touched_start_ne hdown.record (hdown.starts i x hi rfl) e heq
  · obtain rfl := leavesSpawn_eq heq
    exact leavesSpawn_ne (hdown.starts i x hi rfl) e heq
  · by_cases hji : j = i
    · subst hji
      simp only [State.setTask, Function.update_self, Task.start.injEq] at hj
      subst hj
      obtain rfl : x.sid = sid := (sid_startStep hr).symm.trans hy
      obtain ⟨hjudged, hbudget⟩ :=
        judgedWedged_of_relaunches hr ((h x.sid hsid).starts j x hi rfl) hrelaunches
      have hwedged : x.sid ∈ wedged s (.start j e) := by simp [wedged, hi, hjudged, hbudget]
      exact absurd hsid (hguard.2 x.sid hwedged)
    · simpa only [State.setTask, Function.update_of_ne hji] using hj

/-- A stop that returned removed the record of its session. -/
theorem lookup_of_returning {y : Stop} {o : Outcome} {q : Manager × Stop}
    (h : stopStep m y o = some q) (hreturns : y.returning o = some sid) :
    q.1.sessions.lookup sid = none := by
  unfold Stop.returning at hreturns
  split at hreturns
  · split at hreturns
    · rename_i reads hphase
      obtain rfl := Option.some.inj hreturns
      simp only [stopStep, hphase, Option.some.injEq] at h
      subst h
      have hdrop : ∀ k : Manager, (k.dropSentinel y.sid).sessions = k.sessions := by
        intro k
        unfold Manager.dropSentinel
        split <;> rfl
      simp [stopRemove, Manager.updateSessions, hdrop, Manager.save]
    · exact absurd hreturns (by simp)
  · exact absurd hreturns (by simp)

/-- A stop that goes on as the condition has it. -/
theorem stoppedStayDown_stop {i : TaskId} {y : Stop} {o : Outcome} {q : Manager × Stop}
    (hfresh : TasksFresh s) (h : StoppedStayDown s) (hi : s.tasks i = .stop y)
    (hguard : StopIsLast s (.stop i o)) (hq : stopStep s.mgr y o = some q) :
    StoppedStayDown (s.setTask q.1 i (.stop q.2)) := by
  have hsettles : Settles none none (y.returning o) s.mgr q.1 := settles_stopStep hq
  have hstarts (j : TaskId) (z : Start) (hj : (s.setTask q.1 i (.stop q.2)).tasks j = .start z) :
      s.tasks j = .start z := by
    by_cases hji : j = i
    · subst hji
      simp [State.setTask] at hj
    · simpa only [State.setTask, Function.update_of_ne hji] using hj
  intro sid hsid
  rcases hsettles.stopped sid hsid with hreturns | hstopped
  · -- The stop of this session returns: the condition says that no start relaunches.
    have hreturning : sid ∈ returning s (.stop i o) := by simpa [returning, hi] using hreturns
    obtain ⟨hquiet, hworkers⟩ := of_relaunches_eq_false hfresh (hguard.1 sid hreturning)
    exact
      { record := lookup_of_returning hq hreturns
        starts := fun j z hj => hquiet j z (hstarts j z hj)
        workers := fun n hn => hworkers n ((hsettles.spawns sid n hn).resolve_left (by simp)) }
  · exact (h sid hstopped).step hsettles.toFrame.recedes (by simp) (by simp)
      fun j z hj _ _ => hstarts j z hj

/-- Every step that meets the condition keeps stopped sessions down. -/
theorem stoppedStayDown_step {e : Event} (hfresh : TasksFresh s) (h : StoppedStayDown s)
    (hguard : StopIsLast s e) (hstep : machine.step s e = some t) : StoppedStayDown t := by
  -- a tool call touches only sessions that have a record
  have htool {i : TaskId} {e : ToolEvent} {x y : Tool} {m : Manager} {o : Option SessionId}
      (hr : toolStep s.mgr i s.busy x e = some (m, y, o)) :
      StoppedStayDown (s.setTask m i (.tool y)) :=
    h.setTask (frame_toolStep hr).recedes (fun sid hdown => touched_tool_ne hdown.record x e)
      (by simp)
  cases takes_of_step hstep with
  | callTool => exact h.addTask (by simp)
  | callStop sid => exact h.addTask (by simp)
  | callGc => exact h.addTask (by simp)
  | @callStart sid resilient maxRestarts hid =>
    have hstopped : sid ∉ s.mgr.stopped := by
      simp only [State.freshId, Bool.and_eq_true, decide_eq_true_eq] at hid
      exact hid.1.2
    have hframe : Frame none none none s.mgr
        (startSession s.mgr sid resilient maxRestarts).1 := .of_eq rfl rfl rfl rfl rfl
    refine (h.setMgr hframe).addTask fun y hy => ?_
    cases hy
    exact hstopped
  | tool _ hr => exact htool hr
  | submits _ hr => exact (htool hr).addTask (by simp [jobTask])
  | stop hi hr => exact stoppedStayDown_stop hfresh h hi hguard hr
  | gc _ hr => exact h.setTask (recedes_gcStep hr) (by simp) (by simp)
  | start hi hr => exact stoppedStayDown_start h hi hguard hr
  | @worker w _ ok =>
    have hsettles : Settles none none none s.mgr (s.mgr.endWorker w ok) := settles_endWorker _ w ok
    exact h.setMgr hsettles.toFrame
  | dies pid =>
    have hsettles : Settles none none none s.mgr (s.mgr.kill pid) := settles_kill _ pid
    exact h.setMgr hsettles.toFrame
  | passes seconds => exact h.setMgr (frame_passes s.mgr seconds)

/-! ## Finality -/

/-- A thread that is no spawn launches nothing. -/
theorem inert_endWorker {w : Worker} {ok : Bool} (hw : w.spawns sid = true)
    (hworkers : ∀ n, Worker.spawn sid n ∉ m.workers) (hmem : w ∈ m.workers) :
    Inert sid m (m.endWorker w ok) := by
  cases w with
  | stop other pid byGc => exact absurd hw (by simp [Worker.spawns])
  | spawn other n =>
    obtain rfl : other = sid := by simpa [Worker.spawns] using hw
    exact absurd hmem (hworkers n)

/-- A session that is down stays out of the tables. -/
theorem inert_of_staysDown (h : StaysDown s sid) {e : Event} (hstart : e.ofStart s sid)
    (hstep : machine.step s e = some t) : Inert sid s.mgr t.mgr := by
  cases takes_of_step hstep with
  | @start i e x r hi hr =>
    obtain rfl : x.sid = sid := by simpa [Event.ofStart, hi, Task.starts] using hstart
    exact inert_startStep h.record (h.starts i x hi rfl) hr
  | worker hw ok => exact inert_endWorker hstart h.workers hw
  | _ => exact absurd hstart (by simp [Event.ofStart])

/-! ## Late saves -/

/-- A section gives no session a record that has none, apart from the first save of a start. -/
theorem lookup_modify_none {edit : Edit} {sessions edited : Sessions}
    (h : edit.modify m sessions = some edited) (hnone : sessions.lookup sid = none)
    (hpersist : ∀ r, edit ≠ .persist sid r) : edited.lookup sid = none := by
  by_cases hsid : sid ∈ edit.operatedOn
  · cases edit with
    | persist own record =>
      obtain rfl : sid = own := List.mem_singleton.mp hsid
      exact absurd rfl (hpersist record)
    | markConnected own record =>
      obtain rfl : sid = own := List.mem_singleton.mp hsid
      have hmem : sid ∉ sessions := AList.lookup_eq_none.mp hnone
      exact absurd h (by simp [Edit.modify, hmem])
    | discard own =>
      obtain rfl : sid = own := List.mem_singleton.mp hsid
      have hmem : sid ∉ sessions := AList.lookup_eq_none.mp hnone
      exact absurd h (by simp [Edit.modify, hmem])
    | stop own =>
      obtain rfl : sid = own := List.mem_singleton.mp hsid
      cases h
      exact AList.lookup_erase _ _
    | gc reclaimed =>
      cases h
      have hmem : sid ∈ reclaimed := hsid
      rw [lookup_foldl_erase, if_pos hmem]
    | bind own | fold own attempt | touch own live | updateWsConnected own connected =>
      obtain rfl : sid = own := List.mem_singleton.mp hsid
      exact absurd h (by simp [Edit.modify, hnone])
  · exact (lookup_modify h hsid).trans hnone

/-- Nor does the save that it leaves running. -/
theorem notMem_leaves {edit : Edit} {io : Io} (hnone : m.sessions.lookup sid = none)
    (hpersist : ∀ r, edit ≠ .persist sid r) : ∀ table ∈ edit.leaves m io, sid ∉ table := by
  intro table htable
  unfold Edit.leaves at htable
  split at htable
  · rename_i reads
    exact AList.lookup_eq_none.mp
      (lookup_modify_none htable (lookup_load_none hnone reads) hpersist)
  · cases htable

/-- The saves that a step leaves running have no record of a session that is down. -/
theorem StaysDown.notMem_leaves (h : StaysDown s sid) (e : Event) :
    ∀ table ∈ s.leaves e, sid ∉ table := by
  intro table htable
  unfold State.leaves at htable
  split at htable
  · rename_i edit io hedit
    refine Session.notMem_leaves h.record (fun r hpersist => ?_) table
      (Option.mem_toList.mp htable)
    -- only a start that relaunches saves a first record
    subst hpersist
    rcases editOf_cases hedit with ⟨_, _, _, _, hne⟩ | ⟨_, _, _, _, hne⟩ |
      ⟨_, _, _, _, _, hne⟩ | ⟨i, x, e', _, hi, hx⟩
    · cases hne
    · cases hne
    · cases hne
    · generalize hedit' : Edit.persist sid r = edit at hx
      cases (runs_of_edit hx).1 with
      | persist hphase =>
        obtain ⟨rfl, -⟩ : sid = x.sid ∧ r = _ := by simpa using hedit'
        exact absurd (h.starts i x hi rfl) (by simp [Start.relaunches, hphase])
      | markConnected _ | bind _ | fold _ | discard _ => cases hedit'
  · cases htable

/-- The stops that have returned are those before the step and the one that returns by it. -/
theorem stopped_step {e : Event} (hstep : machine.step s e = some t) (h : sid ∈ t.mgr.stopped) :
    sid ∈ returning s e ∨ sid ∈ s.mgr.stopped := by
  cases takes_of_step hstep with
  | callTool | callStop | callGc | callStart | passes => exact Or.inr h
  | tool _ hr | submits _ hr =>
    have hframe : Frame _ none none s.mgr _ := frame_toolStep hr
    exact Or.inr ((hframe.stopped sid h).resolve_left (by simp))
  | @stop i o x r hi hr =>
    have hsettles : Settles none none (x.returning o) s.mgr r.1 := settles_stopStep hr
    exact (hsettles.stopped sid h).imp_left fun hreturns => by simpa [returning, hi] using hreturns
  | gc _ hr => exact Or.inr (((recedes_gcStep hr).stopped sid h).resolve_left (by simp))
  | @start i e x r hi hr =>
    have hsettles : Settles (x.touched s.mgr e) (x.leavesSpawn e) none s.mgr r.1 :=
      settles_startStep hr
    exact Or.inr ((hsettles.stopped sid h).resolve_left (by simp))
  | @worker w _ ok =>
    have hsettles : Settles none none none s.mgr (s.mgr.endWorker w ok) := settles_endWorker _ w ok
    exact Or.inr ((hsettles.stopped sid h).resolve_left (by simp))
  | dies pid =>
    have hsettles : Settles none none none s.mgr (s.mgr.kill pid) := settles_kill _ pid
    exact Or.inr ((hsettles.stopped sid h).resolve_left (by simp))

/-- A stop that returns leaves no save running. -/
theorem leaves_of_returning {e : Event} (h : sid ∈ returning s e) : s.leaves e = [] := by
  unfold returning at h
  split at h
  · split at h
    · rename_i i o x hi
      unfold Stop.returning at h
      split at h
      · split at h
        · rename_i hphase
          simp [State.leaves, editOf, hi, Stop.edit, hphase, Edit.leaves]
        · cases h
      · cases h
    · cases h
  · cases h

/-- No save that is still running has a record of a stopped session. -/
def StoppedStayOut (l : Lingering) : Prop :=
  ∀ sid ∈ l.server.mgr.stopped, ∀ table ∈ l.saves, sid ∉ table

/-- A table without the stopped sessions is written. -/
theorem StoppedStayDown.save (h : StoppedStayDown s) {table : Sessions}
    (hout : ∀ sid ∈ s.mgr.stopped, sid ∉ table) : StoppedStayDown (s.save table) :=
  fun sid hsid =>
    { record := AList.lookup_eq_none.mpr (hout sid hsid)
      starts := (h sid hsid).starts
      workers := (h sid hsid).workers }

/-- Every step that meets the condition keeps stopped sessions down, also of the late saves. -/
theorem stoppedStayDown_lingering {l l' : Lingering} {e : LateEvent}
    (h : TasksFresh l.server ∧ StoppedStayDown l.server ∧ StoppedStayOut l)
    (hguard : StopIsLastLate l e) (hstep : lingering.step l e = some l') :
    TasksFresh l'.server ∧ StoppedStayDown l'.server ∧ StoppedStayOut l' := by
  obtain ⟨hfresh, hdown, hout⟩ := h
  have hkept {k : ℕ} (sid : SessionId) (hsid : sid ∈ l.server.mgr.stopped) (table : Sessions)
      (htable : table ∈ l.saves.eraseIdx k) : sid ∉ table :=
    hout sid hsid table (List.mem_of_mem_eraseIdx htable)
  replace hstep : lingeringStep l e = some l' := hstep
  cases e with
  | server e =>
    obtain ⟨t, ht, rfl⟩ := Option.map_eq_some_iff.mp hstep
    refine ⟨tasksFresh_step hfresh ht, stoppedStayDown_step hfresh hdown hguard.1 ht,
      fun sid hsid table htable => ?_⟩
    rcases stopped_step ht hsid with hreturns | hstopped
    · rw [leaves_of_returning hreturns, List.append_nil] at htable
      exact hguard.2 sid hreturns table htable
    · rcases List.mem_append.mp htable with hold | hnew
      · exact hout sid hstopped table hold
      · exact (hdown sid hstopped).notMem_leaves e table hnew
  | updateWsConnected own connected io =>
    cases hstep
    have hpersist {sid : SessionId} (r : Record) :
        Edit.updateWsConnected own connected ≠ .persist sid r := by simp
    have htable (sid : SessionId) (hsid : sid ∈ l.server.mgr.stopped) :
        sid ∉ (l.server.mgr.updateWsConnected own connected io).1.sessions := by
      have hnone : l.server.mgr.sessions.lookup sid = none := (hdown sid hsid).record
      rw [← AList.lookup_eq_none]
      rcases Manager.updateSessions_cases
        (Prod.eta (l.server.mgr.updateWsConnected own connected io)).symm with
        hsame | ⟨reads, edited, hsome, hsave⟩
      · rw [hsame]
        exact hnone
      · have hedit : (Edit.updateWsConnected own connected).modify l.server.mgr
            (l.server.mgr.load reads) = some edited := hsome
        rw [hsave]
        exact lookup_modify_none hedit (lookup_load_none hnone reads) hpersist
    refine ⟨hfresh, hdown.save htable, fun sid hsid table hmem => ?_⟩
    rcases List.mem_append.mp hmem with hold | hnew
    · exact hout sid hsid table hold
    · exact notMem_leaves (hdown sid hsid).record hpersist table (Option.mem_toList.mp hnew)
  | lands k =>
    obtain ⟨table, htable, rfl⟩ := Option.map_eq_some_iff.mp hstep
    exact ⟨hfresh, hdown.save fun sid hsid => hout sid hsid table (List.mem_of_getElem? htable),
      hkept⟩
  | overtaken k =>
    obtain ⟨_, -, rfl⟩ := Option.map_eq_some_iff.mp hstep
    exact ⟨hfresh, hdown, hkept⟩

/-- After a stop returned, the session's start puts nothing back and launches nothing, and no late
save puts it back: in runs where no stop returns while a start of its session relaunches or a save
with its record is still running, and no attempt of a stopped session is judged wedged with budget
left. -/
theorem stopFinal_of_reaches {sessions : Sessions} {procs : ℕ → Proc} {nextLauncher : ℕ}
    {l : Lingering} (h : lingering.Reaches StopIsLastLate
      (Lingering.init sessions procs nextLauncher) l) : StopFinal l := by
  have hrun : TasksFresh l.server ∧ StoppedStayDown l.server ∧ StoppedStayOut l := by
    refine h.invariant
      (P := fun l => TasksFresh l.server ∧ StoppedStayDown l.server ∧ StoppedStayOut l)
      ⟨fun _ _ => rfl, ?_, ?_⟩
      fun k e k' hk hguard hstep => stoppedStayDown_lingering hk hguard hstep
    · simp [StoppedStayDown, Lingering.init, init]
    · simp [StoppedStayOut, Lingering.init, init]
  intro sid hsid
  have hdown : StaysDown l.server sid := hrun.2.1 sid hsid
  refine ⟨hdown.record, fun e l' hstart hstep => ?_⟩
  replace hstep : lingeringStep l e = some l' := hstep
  cases e with
  | server e =>
    obtain ⟨t, ht, rfl⟩ := Option.map_eq_some_iff.mp hstep
    exact inert_of_staysDown hdown hstart ht
  | lands k =>
    obtain ⟨table, htable, rfl⟩ := Option.map_eq_some_iff.mp hstep
    have hout : sid ∉ table := hrun.2.2 sid hsid table (List.mem_of_getElem? htable)
    exact ⟨fun _ => AList.lookup_eq_none.mpr hout, Or.inr rfl, Or.inr rfl, Or.inr rfl,
      fun _ => id, rfl⟩
  | updateWsConnected _ _ _ | overtaken _ => exact hstart.elim

/-- A resilient start bound its transport and waits for the emulated CPU; a tool call is cancelled
in its touch. A stop kills the process, the late save of the touch reaches the file, the stop
returns, and the gate's probe is cancelled by its caller. -/
def lastStopRun : List LateEvent :=
  serverRun
    [.callStart 7 true 1, .start 0 (.spawned 5000), .start 0 (.io (.done true)),
     .start 0 .connects, .start 0 (.io (.done true)), .start 0 .returns,
     .start 0 (.io (.done true)), .start 0 (.reads true),
     .callTool, .tool 1 (.begins 7 .stay), .tool 1 (.checks true),
     .tool 1 (.touches (.cutSaving true false) false),
     .callStop 7, .stop 2 (.io (.done true)), .stop 2 .returns, .stop 2 .returns] ++
    [.lands 0] ++
    serverRun [.stop 2 (.io (.done true)), .start 0 .cancelled]

/-- The stop of the start that waits is final. -/
theorem stopFinal_lastStopRun :
    ∃ l, lingering.run (Lingering.init ∅ (fun _ => .unborn) 0) lastStopRun = some l ∧
      7 ∈ l.server.mgr.stopped ∧ (l.server.tasks 0).starts 7 = true ∧ StopFinal l := by
  refine ⟨_, rfl, by decide, rfl, ?_⟩
  have hrun : lingering.Reaches StopIsLastLate (Lingering.init ∅ (fun _ => .unborn) 0) _ :=
    Machine.reaches_of_runWith lastStopRun rfl
  exact stopFinal_of_reaches hrun

/-- The same start, which takes the killed process for a wedge: the probe times out, the
attempt is torn down and launched again. -/
def relaunchRun : List LateEvent :=
  serverRun
    [.callStart 7 true 1, .start 0 (.spawned 5000), .start 0 (.io (.done true)),
     .start 0 .connects, .start 0 (.io (.done true)), .start 0 .returns,
     .start 0 (.io (.done true)), .start 0 (.reads true),
     .callStop 7, .stop 1 (.io (.done true)), .stop 1 .returns, .stop 1 .returns,
     .stop 1 (.io (.done true)), .start 0 .timesOut, .start 0 .returns, .start 0 .returns]

/-- The start of a stopped session spawns a process and registers its launcher. -/
theorem relaunches_after_stop :
    ∃ l, lingering.Reachable (Lingering.init ∅ (fun _ => .unborn) 0) l ∧ ¬ StopFinal l := by
  refine ⟨_, Machine.reachable_of_run relaunchRun rfl, fun hfinal => ?_⟩
  have hinert := (hfinal 7 (by decide)).2 (.server (.start 0 (.spawned 5000))) _ rfl rfl
  exact absurd hinert.launcher (by decide)

end Session
