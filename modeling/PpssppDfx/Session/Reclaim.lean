import PpssppDfx.Session.Frame

/-!
# What the idle collector kills

The collector decides from a second read of the table and kills later, session by
session. It does not look at locks or jobs: a call or a job protects its session only by
the touch it made when it began. A session that is touched after the second read, or
used for longer than the threshold without a touch, is killed under its user.

## Main results

* `sparesUsed_of_reaches` — the collector kills only idle, unused sessions in runs where
  it decides on records that are current and name the process, users touch their
  sessions in time, and nobody touches a session between the decision and the kill
* `kills_running_job` — a run in which it kills the session of a running call
-/

set_option autoImplicit false

namespace Session

open Semantics

/-! ## Use and doom -/

/-- The task is past its touch of the session, or is the session's background job. -/
def Task.occupies (sid : SessionId) : Task → Bool
  | .tool t =>
    decide (t.job = some sid ∧ t.phase ≠ .ended) || t.held.any (fun u => decide (u.1 = sid)) ||
      match t.phase with
      | .waiting other _ => decide (other = sid)
      | _ => false
  | _ => false

def Task.pending : Task → Option (SessionId × ℕ)
  | .gc g => g.phase.pending
  | _ => none

/-- What the collector is killing: the kill was handed over to a worker thread. -/
def Task.kills : Task → Option (SessionId × ℕ)
  | .gc ⟨_, .killing _ entry goal _⟩ => some (entry.sid, goal.process)
  | _ => none

/-- A kill of the collector that a worker thread still has to carry out. -/
def Worker.pending : Worker → Option (SessionId × ℕ)
  | .stop sid pid true => some (sid, pid)
  | _ => none

/-- The sessions and processes between the collector's decision and its kill. -/
def State.doomed (s : State) : List (SessionId × ℕ) :=
  (List.range s.nextTask).filterMap (fun i => (s.tasks i).pending) ++
    s.mgr.workers.filterMap Worker.pending

/-- When the collector kills a live process, the session's record is idle, no task is
inside the session, and the session has no queued or running job. -/
def SparesUsed (s : State) : Prop :=
  ∀ sid pid, ((∃ i, (s.tasks i).kills = some (sid, pid)) ∨
      Worker.stop sid pid true ∈ s.mgr.workers) → s.mgr.procs pid = .alive →
    (∀ r, s.mgr.sessions.lookup sid = some r → s.mgr.idle r) ∧
      (∀ i n, (sid, n) ∉ (s.tasks i).held) ∧ ∀ i, (s.tasks i).jobFor sid = false

/-! ## The condition -/

/-- The decision of a step to reclaim a session: the second read, the session and the
process. -/
def decides (s : State) : Event → Option (Sessions × SessionId × ℕ)
  | .gc i .returns =>
    match s.tasks i with
    | .gc ⟨_, .deciding fresh (entry :: _)⟩ =>
      if gcSkips s.mgr fresh entry.sid then none
      else entry.target.map fun goal => (fresh, entry.sid, goal.process)
    | _ => none
  | _ => none

/-- The second read found the record, the record names the process, and it was not
touched since. -/
def State.rereadHolds (s : State) (fresh : Sessions) (sid : SessionId) (pid : ℕ) : Bool :=
  (fresh.lookup sid).any fun r =>
    decide (r.pid = some pid) &&
      (s.mgr.sessions.lookup sid).all fun r' => decide (r'.lastActiveAt ≤ r.lastActiveAt)

/-- A session in use has a record that was touched within the threshold. -/
def State.usersTouch (s : State) (sid : SessionId) : Bool :=
  ((List.range s.nextTask).all fun i => !(s.tasks i).occupies sid) ||
    (s.mgr.sessions.lookup sid).any fun r => decide (¬ s.mgr.idle r)

/-- The session that a step touches. -/
def touched (s : State) : Event → Option SessionId
  | .tool i e =>
    match s.tasks i with
    | .tool t => t.touched s.mgr e
    | _ => none
  | .start i e =>
    match s.tasks i with
    | .start t => t.touched s.mgr e
    | _ => none
  | _ => none

/-- The collector reclaims a live process only on a second read that holds, of a session
whose users touch it; and no step touches a session between the decision and the kill. -/
def ReclaimsIdle (s : State) (e : Event) : Prop :=
  (∀ d ∈ decides s e, s.mgr.procs d.2.2 = .gone ∨
    s.mgr.procs d.2.2 = .alive ∧ s.rereadHolds d.1 d.2.1 d.2.2 = true ∧
      s.usersTouch d.2.1 = true) ∧
  ∀ sid ∈ touched s e, ∀ d ∈ s.doomed, d.1 = sid → s.mgr.procs d.2 = .gone

instance (s : State) (e : Event) : Decidable (ReclaimsIdle s e) :=
  inferInstanceAs (Decidable ((∀ d ∈ decides s e, _) ∧ ∀ sid ∈ touched s e, _))

/-- The same with late saves: of a session between the decision and the kill they put back no
record but an idle one. -/
def ReclaimsIdleLate (l : Lingering) : LateEvent → Prop
  | .server e => ReclaimsIdle l.server e
  | .lands k => ∀ table ∈ l.saves[k]?, ∀ d ∈ l.server.doomed, l.server.mgr.procs d.2 = .gone ∨
      ∀ r ∈ table.lookup d.1, l.server.mgr.idle r
  | .updateWsConnected .. | .overtaken _ => True

instance (l : Lingering) (e : LateEvent) : Decidable (ReclaimsIdleLate l e) :=
  match e with
  | .server e => inferInstanceAs (Decidable (ReclaimsIdle l.server e))
  | .lands k => inferInstanceAs (Decidable (∀ table ∈ l.saves[k]?, _))
  | .updateWsConnected .. | .overtaken _ => inferInstanceAs (Decidable True)

/-! ## Invariant -/

/-- What is doomed is gone, or idle and unused. -/
def Spared (s : State) : Prop :=
  ∀ d ∈ s.doomed, s.mgr.procs d.2 = .gone ∨
    (∀ r, s.mgr.sessions.lookup d.1 = some r → s.mgr.idle r) ∧
      ∀ i, (s.tasks i).occupies d.1 = false

variable {s t : State} {m m' : Manager} {active spawning returning : Option SessionId}

/-! ## Who uses a session -/

theorem occupies_tool_iff {x : Tool} {sid : SessionId} :
    (Task.tool x).occupies sid = true ↔ (x.job = some sid ∧ x.phase ≠ .ended) ∨
      (∃ u ∈ x.held, u.1 = sid) ∨ ∃ ref, x.phase = .waiting sid ref := by
  have hwaits : (match x.phase with
      | .waiting other _ => decide (other = sid)
      | _ => false) = true ↔ ∃ ref, x.phase = .waiting sid ref := by
    split <;> rename_i hphase
    · simp [hphase]
    · simp only [Bool.false_eq_true, false_iff, not_exists]
      exact fun ref => hphase sid ref
  simp only [Task.occupies, Bool.or_eq_true, decide_eq_true_eq, List.any_eq_true, hwaits, or_assoc]

/-- A tool that holds no more than before, and does not begin to wait. -/
theorem occupies_of_held {x y : Tool} {sid : SessionId} (hjob : y.job = x.job)
    (hended : x.phase ≠ .ended) (hheld : y.held ⊆ x.held)
    (hwaits : ∀ ref, y.phase = .waiting sid ref → x.phase = .waiting sid ref)
    (h : (Task.tool y).occupies sid = true) : (Task.tool x).occupies sid = true := by
  rw [occupies_tool_iff] at h ⊢
  rcases h with ⟨hy, _⟩ | ⟨u, hu, hsid⟩ | ⟨ref, href⟩
  · exact Or.inl ⟨hjob ▸ hy, hended⟩
  · exact Or.inr (Or.inl ⟨u, hheld hu, hsid⟩)
  · exact Or.inr (Or.inr ⟨ref, hwaits ref href⟩)

/-- After its touch of a session a tool uses that session and what it used before. -/
theorem occupies_afterTouch {i : TaskId} {busy : SessionId → Bool} {x : Tool} {after : After}
    {sid other : SessionId} (hended : x.phase ≠ .ended)
    (h : (Task.tool (afterTouch m i busy x sid after).2.1).occupies other = true) :
    (Task.tool x).occupies other = true ∨ other = sid := by
  have hbody (h : (Task.tool { x with phase := .body }).occupies other = true) :
      (Task.tool x).occupies other = true :=
    occupies_of_held (y := { x with phase := .body }) rfl hended (List.Subset.refl _) (by simp) h
  cases after with
  | submit => exact Or.inl (hbody h)
  | stay => exact Or.inl (hbody h)
  | enter =>
    rw [occupies_tool_iff] at h ⊢
    simp only [afterTouch, enterLock] at h
    split at h
    · rcases h with ⟨hjob, _⟩ | hheld | ⟨ref, href⟩
      · exact Or.inl (Or.inl ⟨hjob, hended⟩)
      · exact Or.inl (Or.inr (Or.inl hheld))
      · simp only [ToolPhase.waiting.injEq] at href
        exact Or.inr href.1.symm
    · split at h
      · rcases h with ⟨hjob, _⟩ | ⟨u, hu, hsid⟩ | ⟨ref, href⟩
        · exact Or.inl (Or.inl ⟨hjob, hended⟩)
        · rcases List.mem_cons.mp hu with rfl | hu
          · exact Or.inr hsid.symm
          · exact Or.inl (Or.inr (Or.inl ⟨u, hu, hsid⟩))
        · exact absurd href (by simp)
      · rcases h with ⟨hjob, _⟩ | hheld | ⟨ref, href⟩
        · exact Or.inl (Or.inl ⟨hjob, hended⟩)
        · exact Or.inl (Or.inr (Or.inl hheld))
        · simp only [ToolPhase.waiting.injEq] at href
          exact Or.inr href.1.symm

/-- A tool begins to use a session, or submits a job for it, only as it touches it. -/
theorem toolStep_uses {i : TaskId} {busy : SessionId → Bool} {x : Tool} {e : ToolEvent}
    {r : Manager × Tool × Option SessionId} (h : toolStep m i busy x e = some r)
    (sid : SessionId) :
    ((Task.tool r.2.1).occupies sid = true →
      (Task.tool x).occupies sid = true ∨ x.touched m e = some sid) ∧
    (r.2.2 = some sid → x.touched m e = some sid) := by
  -- The tool keeps what it holds and goes to a phase in which it does not wait.
  have hmove {p : ToolPhase} {k : Manager} (hended : x.phase ≠ .ended)
      (hp : ∀ ref, p ≠ .waiting sid ref) :
      ((Task.tool { x with phase := p }).occupies sid = true →
        (Task.tool x).occupies sid = true ∨ x.touched m e = some sid) ∧
      ((k, { x with phase := p }, (none : Option SessionId)).2.2 = some sid →
        x.touched m e = some sid) :=
    ⟨fun hocc => Or.inl (occupies_of_held (y := { x with phase := p }) rfl hended
      (List.Subset.refl _) (fun ref href => absurd href (hp ref)) hocc), by simp⟩
  have hrest {n : ℕ} {s : SessionId} {rest : List (SessionId × ℕ)} (hphase : x.phase = .body)
      (hheld : x.held = (s, n) :: rest)
      (hocc : (Task.tool { x with held := rest }).occupies sid = true) :
      (Task.tool x).occupies sid = true :=
    occupies_of_held (y := { x with held := rest }) rfl (by simp [hphase]) (by simp [hheld])
      (by simp [hphase]) hocc
  cases takes_of_toolStep h with
  | leaves hheld _ hphase | leavesUnheld hheld _ hphase =>
    exact ⟨fun hocc => Or.inl (hrest hphase hheld hocc), by simp⟩
  | @touches other after io live m₁ htouch hphase =>
    have htouched : x.touched m (.touches io live) = some other := by
      obtain ⟨hio, hsome⟩ := touchSession_saved htouch
      obtain ⟨r, hr⟩ := Option.isSome_iff_exists.mp hsome
      simp [Tool.touched, hphase, hio, hr]
    constructor
    · intro hocc
      rcases occupies_afterTouch (by simp [hphase]) hocc with hold | rfl
      · exact Or.inl hold
      · exact Or.inr htouched
    · intro hjob
      cases after with
      | enter => simp [afterTouch] at hjob
      | stay => simp [afterTouch] at hjob
      | submit =>
        simp only [afterTouch] at hjob
        split at hjob
        · exact absurd hjob (by simp)
        · exact htouched.trans hjob
  | @granted other n l _ hphase =>
    refine ⟨fun hocc => Or.inl ?_, by simp⟩
    rw [occupies_tool_iff] at hocc ⊢
    rcases hocc with ⟨hjob, _⟩ | ⟨u, hu, hsid⟩ | ⟨ref, href⟩
    · exact Or.inl ⟨hjob, by simp [hphase]⟩
    · rcases List.mem_cons.mp hu with rfl | hu
      · exact Or.inr (Or.inr ⟨.object n, hsid ▸ hphase⟩)
      · exact Or.inr (Or.inl ⟨u, hu, hsid⟩)
    · exact absurd href (by simp)
  | begins hphase | finishes _ hphase | checks _ hphase | checkFails _ hphase
  | checkGivenUp hphase | touchFails _ _ hphase | withdraws hphase | closingGivenUp hphase =>
    exact hmove (k := m) (by simp [hphase]) (by simp)

/-! ## Steps and runs -/

theorem mem_doomed (hfresh : TasksFresh s) {d : SessionId × ℕ} :
    d ∈ s.doomed ↔ (∃ i, (s.tasks i).pending = some d) ∨
      ∃ w ∈ s.mgr.workers, w.pending = some d := by
  simp only [State.doomed, List.mem_append, List.mem_filterMap, List.mem_range]
  refine or_congr ⟨fun ⟨i, _, hi⟩ => ⟨i, hi⟩, fun ⟨i, hi⟩ => ⟨i, ?_, hi⟩⟩ Iff.rfl
  by_contra hle
  rw [hfresh i (Nat.le_of_not_lt hle)] at hi
  exact absurd hi (by simp [Task.pending])

/-- No kill of the collector is added to the worker threads. -/
theorem worker_kept (hframe : Frame active spawning returning m m') {w : Worker}
    (hw : w ∈ m'.workers) {d : SessionId × ℕ} (hpending : w.pending = some d) :
    ∃ w ∈ m.workers, w.pending = some d := by
  unfold Worker.pending at hpending
  split at hpending
  · obtain rfl := Option.some.inj hpending
    exact ⟨_, hframe.kills _ _ hw, rfl⟩
  · exact absurd hpending (by simp)

/-- A step that dooms nothing, and touches nothing that is doomed and not gone. -/
theorem Spared.step (h : Spared s)
    (hdoomed : ∀ d ∈ t.doomed, d ∈ s.doomed) (hnow : s.mgr.now ≤ t.mgr.now)
    (hgone : ∀ pid, s.mgr.procs pid = .gone → t.mgr.procs pid = .gone)
    (hrecords : ∀ sid r', t.mgr.sessions.lookup sid = some r' → active = some sid ∨
      ∃ r, s.mgr.sessions.lookup sid = some r ∧ r'.lastActiveAt ≤ r.lastActiveAt)
    (hoccupies : ∀ i sid, (t.tasks i).occupies sid = true →
      (∃ j, (s.tasks j).occupies sid = true) ∨ active = some sid)
    (hquiet : ∀ sid ∈ active, ∀ d ∈ s.doomed, d.1 = sid → s.mgr.procs d.2 = .gone) :
    Spared t := by
  intro d hd
  have hd := hdoomed d hd
  by_cases hproc : s.mgr.procs d.2 = .gone
  · exact Or.inl (hgone _ hproc)
  · have hpassive : active ≠ some d.1 := fun hactive => hproc (hquiet d.1 hactive d hd rfl)
    obtain ⟨hidle, hunused⟩ := (h d hd).resolve_left hproc
    refine Or.inr ⟨fun r' hr' => ?_, fun i => ?_⟩
    · obtain ⟨r, hr, hle⟩ := (hrecords d.1 r' hr').resolve_left hpassive
      have hold := hidle r hr
      simp only [Manager.idle, Manager.idleSeconds] at hold ⊢
      omega
    · cases hocc : (t.tasks i).occupies d.1 with
      | false => rfl
      | true =>
        rcases hoccupies i d.1 hocc with ⟨j, hj⟩ | hactive
        · exact absurd (hj.symm.trans (hunused j)) (by simp)
        · exact absurd hactive hpassive

/-- What a task dooms after a step in which it decided nothing. -/
theorem doomed_setTask (hfresh : TasksFresh s)
    (hframe : Frame active spawning returning s.mgr m) {i : TaskId}
    (hi : s.tasks i ≠ .absent) {task : Task}
    (hpending : ∀ d, task.pending = some d → (s.tasks i).pending = some d) :
    ∀ d ∈ (s.setTask m i task).doomed, d ∈ s.doomed := by
  intro d hd
  rw [mem_doomed hfresh]
  rcases (mem_doomed (hfresh.setTask hi m task)).mp hd with ⟨j, hj⟩ | ⟨w, hw, hpend⟩
  · refine Or.inl ?_
    by_cases hji : j = i
    · subst hji
      exact ⟨j, hpending d (by simpa [State.setTask] using hj)⟩
    · exact ⟨j, by simpa [State.setTask, Function.update_of_ne hji] using hj⟩
  · exact Or.inr (worker_kept hframe hw hpend)

/-- A task moves on without dooming anything. -/
theorem Spared.moves (h : Spared s) (hfresh : TasksFresh s)
    (hframe : Frame active spawning returning s.mgr m)
    {i : TaskId} (hi : s.tasks i ≠ .absent) {task : Task}
    (hpending : ∀ d, task.pending = some d → (s.tasks i).pending = some d)
    (hoccupies : ∀ sid, task.occupies sid = true →
      (s.tasks i).occupies sid = true ∨ active = some sid)
    (hquiet : ∀ sid ∈ active, ∀ d ∈ s.doomed, d.1 = sid → s.mgr.procs d.2 = .gone) :
    Spared (s.setTask m i task) := by
  refine h.step (doomed_setTask hfresh hframe hi hpending) hframe.now hframe.gone hframe.records
    (fun j sid hocc => ?_) hquiet
  by_cases hji : j = i
  · subst hji
    rcases hoccupies sid (by simpa [State.setTask] using hocc) with hold | hactive
    · exact Or.inl ⟨j, hold⟩
    · exact Or.inr hactive
  · exact Or.inl ⟨j, by simpa [State.setTask, Function.update_of_ne hji] using hocc⟩

/-- The manager changes and no task does. -/
theorem Spared.setMgr (h : Spared s) (hfresh : TasksFresh s)
    (hframe : Frame none spawning returning s.mgr m) :
    Spared { s with mgr := m } := by
  have hfresh' : TasksFresh { s with mgr := m } := hfresh
  refine h.step (fun d hd => ?_) hframe.now hframe.gone hframe.records
    (fun i sid hocc => Or.inl ⟨i, hocc⟩) (by simp)
  rw [mem_doomed hfresh]
  rcases (mem_doomed hfresh').mp hd with htask | ⟨w, hw, hpend⟩
  · exact Or.inl htask
  · exact Or.inr (worker_kept hframe hw hpend)

/-- A new task that uses no doomed session. -/
theorem Spared.addTask (h : Spared s) (hfresh : TasksFresh s) {task : Task}
    (hpending : task.pending = none)
    (hquiet : ∀ sid, task.occupies sid = true → ∀ d ∈ s.doomed, d.1 = sid →
      s.mgr.procs d.2 = .gone) : Spared (s.addTask task) := by
  intro d hd
  have hd : d ∈ s.doomed := by
    rw [mem_doomed hfresh]
    rcases (mem_doomed (hfresh.addTask task)).mp hd with ⟨j, hj⟩ | hworker
    · by_cases hjn : j = s.nextTask
      · subst hjn
        simp [State.addTask, hpending] at hj
      · exact Or.inl ⟨j, by simpa [State.addTask, Function.update_of_ne hjn] using hj⟩
    · exact Or.inr hworker
  by_cases hproc : s.mgr.procs d.2 = .gone
  · exact Or.inl hproc
  · obtain ⟨hidle, hunused⟩ := (h d hd).resolve_left hproc
    refine Or.inr ⟨hidle, fun j => ?_⟩
    by_cases hjn : j = s.nextTask
    · subst hjn
      cases hocc : task.occupies d.1 with
      | false => simpa [State.addTask] using hocc
      | true => exact absurd (hquiet d.1 hocc d hd rfl) hproc
    · simpa [State.addTask, Function.update_of_ne hjn] using hunused j

/-- The collector decides on a second read that holds. -/
theorem Spared.decides (h : Spared s) (hfresh : TasksFresh s) {i : TaskId} {g : Gc}
    (hi : s.tasks i = .gc g) {fresh : Sessions} {entries : List GcEntry}
    (hphase : g.phase = .deciding fresh entries)
    (hguard : ∀ d ∈ decides s (.gc i .returns), s.mgr.procs d.2.2 = .gone ∨
      s.mgr.procs d.2.2 = .alive ∧ s.rereadHolds d.1 d.2.1 d.2.2 = true ∧
        s.usersTouch d.2.1 = true) :
    Spared (s.setTask s.mgr i (.gc (gcDecide s.mgr g fresh entries))) := by
  have hunused {sid : SessionId} (hall : ∀ j, (s.tasks j).occupies sid = false) (j : TaskId) :
      ((s.setTask s.mgr i (.gc (gcDecide s.mgr g fresh entries))).tasks j).occupies sid =
        false := by
    by_cases hji : j = i
    · subst hji
      simp [State.setTask, Task.occupies]
    · simpa [State.setTask, Function.update_of_ne hji] using hall j
  intro d hd
  by_cases hold : d ∈ s.doomed
  · exact (h d hold).imp_right (And.imp_right hunused)
  rcases (mem_doomed (hfresh.setTask (by simp [hi]) _ _)).mp hd with ⟨j, hj⟩ | hworker
  · by_cases hji : j = i
    · -- The session that the collector has decided to reclaim.
      subst hji
      obtain ⟨entry, rest, goal, rfl, hskips, hgoal, rfl⟩ :=
        pending_gcDecide (by simpa [State.setTask, Task.pending] using hj)
      have hdecides : Session.decides s (.gc j .returns) =
          some (fresh, entry.sid, goal.process) := by
        obtain ⟨reclaimed, phase⟩ := g
        obtain rfl : phase = .deciding fresh (entry :: rest) := hphase
        simp [Session.decides, hi, hskips, hgoal]
      rcases hguard _ hdecides with hgone | ⟨halive, hreread, husers⟩
      · exact Or.inl hgone
      · obtain ⟨r, hr, hnamed, hcurrent⟩ : ∃ r, fresh.lookup entry.sid = some r ∧
            r.pid = some goal.process ∧ ∀ r', s.mgr.sessions.lookup entry.sid = some r' →
              r'.lastActiveAt ≤ r.lastActiveAt := by
          simpa [State.rereadHolds, Option.any_eq_true, Option.all_eq_true] using hreread
        have hidle : s.mgr.idle r := by
          have hexpired : s.mgr.expired r = false := by simp [Manager.expired, hnamed, halive]
          simpa [gcSkips, hr, hexpired] using hskips
        have hrecords : ∀ r', s.mgr.sessions.lookup entry.sid = some r' → s.mgr.idle r' := by
          intro r' hr'
          have hle := hcurrent r' hr'
          simp only [Manager.idle, Manager.idleSeconds] at hidle ⊢
          omega
        refine Or.inr ⟨hrecords, hunused fun k => ?_⟩
        -- Users would have touched the record within the threshold.
        simp only [State.usersTouch, Bool.or_eq_true, List.all_eq_true, List.mem_range,
          Bool.not_eq_true', Option.any_eq_true, decide_eq_true_eq] at husers
        rcases husers with hnone | ⟨r', hr', hactive⟩
        · by_cases hk : k < s.nextTask
          · exact hnone k hk
          · rw [hfresh k (Nat.le_of_not_lt hk)]
            rfl
        · exact absurd (hrecords r' hr') hactive
    · have hpending : d ∈ (s.tasks j).pending := by
        simpa [State.setTask, Function.update_of_ne hji] using hj
      exact absurd ((mem_doomed hfresh).mpr (Or.inl ⟨j, hpending⟩)) hold
  · exact absurd ((mem_doomed hfresh).mpr (Or.inr hworker)) hold

/-- A tool call moves on. -/
theorem Spared.toolStep (h : Spared s) (hfresh : TasksFresh s) {i : TaskId} {e : ToolEvent}
    {x y : Tool} {o : Option SessionId} (hi : s.tasks i = .tool x)
    (hr : Session.toolStep s.mgr i s.busy x e = some (m, y, o))
    (hquiet : ∀ sid ∈ x.touched s.mgr e, ∀ d ∈ s.doomed, d.1 = sid → s.mgr.procs d.2 = .gone) :
    Spared (s.setTask m i (.tool y)) := by
  have hframe : Frame (x.touched s.mgr e) none none s.mgr m := frame_toolStep hr
  refine h.moves hfresh hframe (by simp [hi]) (by simp [Task.pending]) (fun sid hocc => ?_) hquiet
  rw [hi]
  exact (toolStep_uses hr sid).1 hocc

/-- A collection moves on. -/
theorem Spared.gcStep (h : Spared s) (hfresh : TasksFresh s) {i : TaskId} {o : Outcome} {g : Gc}
    {r : Manager × Gc} (hi : s.tasks i = .gc g) (hr : Session.gcStep s.mgr g o = some r)
    (hdecides : ∀ d ∈ Session.decides s (.gc i o), s.mgr.procs d.2.2 = .gone ∨
      s.mgr.procs d.2.2 = .alive ∧ s.rereadHolds d.1 d.2.1 d.2.2 = true ∧
        s.usersTouch d.2.1 = true) :
    Spared (s.setTask r.1 i (.gc r.2)) := by
  have hgc : ∀ d, g.phase.pending = some d → d ∈ s.doomed := fun d hd =>
    (mem_doomed hfresh).mpr (Or.inl ⟨i, by simpa [hi, Task.pending] using hd⟩)
  have hnone : ∀ sid ∈ (none : Option SessionId), ∀ d ∈ s.doomed, d.1 = sid →
      s.mgr.procs d.2 = .gone := by simp
  have hcases : (Settles none none none s.mgr r.1 ∧ _) ∨ _ := gcStep_cases hr
  rcases hcases with ⟨hsettles, hpend⟩ | ⟨fresh, entries, hphase, rfl, rfl⟩ | ⟨d, hd, rfl⟩
  · exact h.moves hfresh hsettles.toFrame (by simp [hi])
      (fun d hd => by simpa [hi, Task.pending] using hpend d hd) (by simp [Task.occupies])
      hnone
  · exact h.decides hfresh hi hphase hdecides
  · -- The kill goes on in its worker thread.
    refine h.step (fun d' hd' => ?_) (Nat.le_refl _) (fun _ => id)
      (fun _ r' hr' => Or.inr ⟨r', hr', Nat.le_refl _⟩) (fun j sid hocc => Or.inl ⟨j, ?_⟩)
      hnone
    · rcases (mem_doomed (hfresh.setTask (by simp [hi]) _ _)).mp hd' with ⟨j, hj⟩ | ⟨w, hw, hp⟩
      · by_cases hji : j = i
        · subst hji
          simp [State.setTask, Task.pending, GcPhase.pending] at hj
        · exact (mem_doomed hfresh).mpr
            (Or.inl ⟨j, by simpa [State.setTask, Function.update_of_ne hji] using hj⟩)
      · rcases List.mem_append.mp hw with hw | hw
        · exact (mem_doomed hfresh).mpr (Or.inr ⟨w, hw, hp⟩)
        · obtain rfl := List.mem_singleton.mp hw
          obtain rfl : d = d' := Option.some.inj hp
          exact hgc d hd
    · by_cases hji : j = i
      · subst hji
        simp [State.setTask, Task.occupies] at hocc
      · simpa [State.setTask, Function.update_of_ne hji] using hocc

/-- Every step that reclaims only idle sessions keeps the invariant. -/
theorem spared_step {e : Event} (hfresh : TasksFresh s) (h : Spared s)
    (hguard : ReclaimsIdle s e) (hstep : machine.step s e = some t) : Spared t := by
  obtain ⟨hdecides, hquiet⟩ := hguard
  cases takes_of_step hstep with
  | callTool => exact h.addTask hfresh rfl (by simp [Task.occupies])
  | callStop sid => exact h.addTask hfresh rfl (by simp [Task.occupies])
  | callGc => exact h.addTask hfresh rfl (by simp [Task.occupies])
  | @callStart sid resilient maxRestarts _ =>
    have hframe : Frame none none none s.mgr
        (startSession s.mgr sid resilient maxRestarts).1 := .of_eq rfl rfl rfl rfl rfl
    have hmgr : Spared { s with mgr := (startSession s.mgr sid resilient maxRestarts).1 } :=
      h.setMgr hfresh hframe
    exact hmgr.addTask hfresh rfl (by simp [Task.occupies])
  | tool hi hr => exact h.toolStep hfresh hi hr (by simpa [touched, hi] using hquiet)
  | @submits i e x y m sid hi hr =>
    have hquiet : ∀ sid ∈ x.touched s.mgr e, ∀ d ∈ s.doomed, d.1 = sid →
        s.mgr.procs d.2 = .gone := by simpa [touched, hi] using hquiet
    have hframe : Frame (x.touched s.mgr e) none none s.mgr m := frame_toolStep hr
    refine (h.toolStep hfresh hi hr hquiet).addTask (hfresh.setTask (by simp [hi]) _ _) rfl
      fun other hocc d hd heq => ?_
    -- The job is for the session that the tool has just touched.
    obtain rfl : other = sid := by
      have hjob := occupies_tool_iff.mp hocc
      simpa [eq_comm] using hjob
    have hold := doomed_setTask hfresh hframe (by simp [hi]) (by simp [Task.pending]) d hd
    exact hframe.gone _ (hquiet other ((toolStep_uses hr other).2 rfl) d hold heq)
  | @stop i o x r hi hr =>
    have hsettles : Settles none none (x.returning o) s.mgr r.1 := settles_stopStep hr
    have hnone : ∀ sid ∈ (none : Option SessionId), ∀ d ∈ s.doomed, d.1 = sid →
        s.mgr.procs d.2 = .gone := by simp
    exact h.moves hfresh hsettles.toFrame (by simp [hi]) (by simp [Task.pending])
      (by simp [Task.occupies]) hnone
  | gc hi hr => exact h.gcStep hfresh hi hr hdecides
  | @start i e x r hi hr =>
    have hsettles : Settles (x.touched s.mgr e) (x.leavesSpawn e) none s.mgr r.1 :=
      settles_startStep hr
    exact h.moves hfresh hsettles.toFrame (by simp [hi]) (by simp [Task.pending])
      (by simp [Task.occupies]) (by simpa [touched, hi] using hquiet)
  | @worker w _ ok =>
    have hsettles : Settles none none none s.mgr (s.mgr.endWorker w ok) := settles_endWorker _ w ok
    exact h.setMgr hfresh hsettles.toFrame
  | dies pid =>
    have hsettles : Settles none none none s.mgr (s.mgr.kill pid) := settles_kill _ pid
    exact h.setMgr hfresh hsettles.toFrame
  | passes seconds =>
    have hframe : Frame none none none s.mgr { s.mgr with now := s.mgr.now + seconds } :=
      frame_passes s.mgr seconds
    exact h.setMgr hfresh hframe

/-- What the collector kills is doomed. -/
theorem Task.pending_of_kills {task : Task} {d : SessionId × ℕ} (h : task.kills = some d) :
    task.pending = some d := by
  unfold Task.kills at h
  split at h
  · exact h
  · exact absurd h (by simp)

/-- A late save that puts back only idle records of doomed sessions. -/
theorem Spared.save (h : Spared s) {table : Sessions}
    (hidle : ∀ d ∈ s.doomed, s.mgr.procs d.2 = .gone ∨ ∀ r ∈ table.lookup d.1, s.mgr.idle r) :
    Spared (s.save table) := by
  intro d hd
  rcases h d hd with hgone | ⟨-, hunused⟩
  · exact Or.inl hgone
  · exact (hidle d hd).imp_right fun hrecords => ⟨fun r hr => hrecords r hr, hunused⟩

/-- Every step that meets the condition keeps the invariant, also of the late saves. -/
theorem spared_lingering {l l' : Lingering} {e : LateEvent} (hfresh : TasksFresh l.server)
    (h : Spared l.server) (hguard : ReclaimsIdleLate l e) (hstep : lingering.step l e = some l') :
    TasksFresh l'.server ∧ Spared l'.server := by
  replace hstep : lingeringStep l e = some l' := hstep
  cases e with
  | server e =>
    obtain ⟨t, ht, rfl⟩ := Option.map_eq_some_iff.mp hstep
    exact ⟨tasksFresh_step hfresh ht, spared_step hfresh h hguard ht⟩
  | updateWsConnected sid connected io =>
    cases hstep
    have hsettles : Settles none none none l.server.mgr
        (l.server.mgr.updateWsConnected sid connected io).1 := settles_updateWsConnected _ _ _ io
    rw [updateWsConnected_save] at hsettles
    exact ⟨hfresh, h.setMgr hfresh hsettles.toFrame⟩
  | lands k =>
    obtain ⟨table, htable, rfl⟩ := Option.map_eq_some_iff.mp hstep
    exact ⟨hfresh, h.save (hguard table htable)⟩
  | overtaken k =>
    obtain ⟨_, -, rfl⟩ := Option.map_eq_some_iff.mp hstep
    exact ⟨hfresh, h⟩

/-- In runs in which the collector reclaims only idle sessions, it kills no live process of
a session in use. -/
theorem sparesUsed_of_reaches {sessions : Sessions} {procs : ℕ → Proc} {nextLauncher : ℕ}
    {l : Lingering} (h : lingering.Reaches ReclaimsIdleLate
      (Lingering.init sessions procs nextLauncher) l) : SparesUsed l.server := by
  have hrun : TasksFresh l.server ∧ Spared l.server := by
    refine h.invariant (P := fun l => TasksFresh l.server ∧ Spared l.server)
      ⟨fun _ _ => rfl, ?_⟩
      fun k e k' hk hguard hstep => spared_lingering hk.1 hk.2 hguard hstep
    intro d hd
    simp [State.doomed, Lingering.init, init] at hd
  obtain ⟨hfresh, hspared⟩ := hrun
  intro sid pid hkills halive
  have hdoomed : (sid, pid) ∈ l.server.doomed := by
    refine (mem_doomed hfresh).mpr (hkills.imp ?_ ?_)
    · rintro ⟨i, hi⟩
      exact ⟨i, Task.pending_of_kills hi⟩
    · exact fun hworker => ⟨_, hworker, rfl⟩
  have hnotGone : l.server.mgr.procs pid ≠ .gone := by rw [halive]; simp
  obtain ⟨hidle, hunused⟩ := (hspared _ hdoomed).resolve_left hnotGone
  -- a client that is open and a job that runs both occupy the session
  refine ⟨hidle, fun i n hheld => ?_, fun i => ?_⟩
  · have hfree := hunused i
    cases htask : l.server.tasks i with
    | tool x =>
      rw [htask] at hheld hfree
      have hocc : (Task.tool x).occupies sid = true :=
        occupies_tool_iff.mpr (Or.inr (Or.inl ⟨(sid, n), hheld, rfl⟩))
      exact absurd (hocc.symm.trans hfree) (by simp)
    | _ => simp [htask, Task.held] at hheld
  · have hfree := hunused i
    cases htask : l.server.tasks i with
    | tool x =>
      rw [htask] at hfree
      cases hjob : (Task.tool x).jobFor sid with
      | false => rfl
      | true =>
        have hactive : x.job = some sid ∧ x.phase ≠ .ended := by simpa [Task.jobFor] using hjob
        have hocc : (Task.tool x).occupies sid = true := occupies_tool_iff.mpr (Or.inl hactive)
        exact absurd (hocc.symm.trans hfree) (by simp)
    | _ => rfl

/-- A session is started, and a tool call is cancelled in its touch, whose thread goes on. The
session is left alone for longer than the threshold; the collector scans the table, reads it again
and hands over the kill. Then the late save reaches the file. -/
def idleRun : List LateEvent :=
  serverRun
    [.callStart 7 false 0, .start 0 (.spawned 5000), .start 0 (.io (.done true)),
     .start 0 .returns, .callTool, .tool 1 (.begins 7 .stay), .tool 1 (.checks true),
     .tool 1 (.touches (.cutSaving true false) false), .passes 2000, .callGc,
     .gc 2 (.io (.done true)), .gc 2 (.io (.done true)), .gc 2 .returns] ++ [.lands 0]

/-- The collector kills an idle session. -/
theorem sparesUsed_idleRun :
    ∃ l, lingering.run (Lingering.init ∅ (fun _ => .unborn) 0) idleRun = some l ∧
      (l.server.tasks 2).kills = some (7, 0) ∧ l.server.mgr.procs 0 = .alive ∧
      SparesUsed l.server := by
  refine ⟨_, rfl, rfl, rfl, ?_⟩
  have hrun : lingering.Reaches ReclaimsIdleLate (Lingering.init ∅ (fun _ => .unborn) 0) _ :=
    Machine.reaches_of_runWith idleRun rfl
  exact sparesUsed_of_reaches hrun

/-- A background job is submitted and works for longer than the threshold without
touching its session again. -/
def jobRun : List LateEvent :=
  serverRun
    [.callStart 7 false 0, .start 0 (.spawned 5000), .start 0 (.io (.done true)),
     .start 0 .returns, .callTool, .tool 1 (.begins 7 .submit), .tool 1 (.checks true),
     .tool 1 (.touches (.done true) false), .tool 2 (.checks true),
     .tool 2 (.touches (.done true) false), .passes 2000,
     .callGc, .gc 3 (.io (.done true)), .gc 3 (.io (.done true)), .gc 3 .returns]

/-- The collector kills the session of the running job. -/
theorem kills_running_job :
    ∃ l, lingering.Reachable (Lingering.init ∅ (fun _ => .unborn) 0) l ∧
      ¬ SparesUsed l.server := by
  refine ⟨_, Machine.reachable_of_run jobRun rfl, fun hspares => ?_⟩
  have hnoJob := (hspares 7 0 (Or.inl ⟨3, rfl⟩) rfl).2.2 2
  exact absurd hnoJob (by decide)

end Session
