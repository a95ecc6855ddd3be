import PpssppDfx.Session.Lingering

/-!
# What the coroutines do to the manager

Each coroutine changes the manager in few ways. This file says once what a step of a
stop, a collection, a start or a tool call may do to the records, the processes, the
worker threads and the lock table, and what it leaves alone.

## Main definitions

* `Frame` — records grow older or vanish, apart from a session that the step touches
* `KeepsLocks` — the lock objects stay, and the table gets none
* `Settles` — both

## Main results

* `settles_stopStep`, `settles_startStep`, `gcStep_cases`, `frame_toolStep`
-/

set_option autoImplicit false

namespace Session

open Semantics

/-! ## Exceptional steps -/

/-- The session whose record a tool's step touches. -/
def Tool.touched (m : Manager) (t : Tool) : ToolEvent → Option SessionId
  | .touches io _ =>
    match t.phase with
    | .touching sid _ =>
      if io = .cutEarly ∨ (m.sessions.lookup sid).isNone then none else some sid
    | _ => none
  | _ => none

/-- The session for which a start's step saves a record with newer activity. -/
def Start.touched (m : Manager) (t : Start) : StartEvent → Option SessionId
  | .io io =>
    match t.phase with
    | .persisting _ => if io = .cutEarly then none else some t.sid
    | .markingConnected =>
      if (m.sessions.lookup t.sid).any fun r =>
          decide (r.lastActiveAt < t.record.lastActiveAt) then some t.sid
      else none
    | _ => none
  | _ => none

/-- The session whose start is cancelled while its worker thread spawns a process. -/
def Start.leavesSpawn (t : Start) : StartEvent → Option SessionId
  | .cancelled => if t.phase = .spawning then some t.sid else none
  | _ => none

/-- The session whose `stop_session` returns. -/
def Stop.returning (t : Stop) : Outcome → Option SessionId
  | .io (.done _) => if t.phase = .removing then some t.sid else none
  | _ => none

/-- What the collector will kill after its decision: a session and a process. -/
def GcPhase.pending : GcPhase → Option (SessionId × ℕ)
  | .closing _ entry _ => entry.target.map fun goal => (entry.sid, goal.process)
  | .killing _ entry goal _ => some (entry.sid, goal.process)
  | _ => none

/-! ## Frames -/

variable {newer spawning returning : Option SessionId} {m m' : Manager}

/-- Time does not go back, processes only age, records grow older or vanish, and no
worker thread or finished stop is added, apart from the sessions that are named. -/
structure Frame (newer spawning returning : Option SessionId) (m m' : Manager) : Prop where
  now : m.now ≤ m'.now
  gone : ∀ pid, m.procs pid = .gone → m'.procs pid = .gone
  unborn : ∀ pid, m'.procs pid = .unborn → m.procs pid = .unborn
  records : ∀ sid r', m'.sessions.lookup sid = some r' →
    newer = some sid ∨ ∃ r, m.sessions.lookup sid = some r ∧ r'.lastActiveAt ≤ r.lastActiveAt
  kills : ∀ sid pid, .stop sid pid true ∈ m'.workers → .stop sid pid true ∈ m.workers
  spawns : ∀ sid n, .spawn sid n ∈ m'.workers →
    spawning = some sid ∨ .spawn sid n ∈ m.workers
  stopped : ∀ sid ∈ m'.stopped, returning = some sid ∨ sid ∈ m.stopped

/-- The lock objects stay as they are, and no lock object is put into the table. -/
structure KeepsLocks (m m' : Manager) : Prop where
  locks : m'.locks = m.locks
  nextLock : m'.nextLock = m.nextLock
  table : ∀ sid n, m'.sessionLocks sid = some (.object n) → m.sessionLocks sid = some (.object n)

/-- A step of a coroutine that takes no session lock. -/
structure Settles (newer spawning returning : Option SessionId) (m m' : Manager) : Prop extends
  Frame newer spawning returning m m', KeepsLocks m m'

theorem Frame.of_eq (hsessions : m'.sessions = m.sessions) (hprocs : m'.procs = m.procs)
    (hworkers : m'.workers = m.workers) (hnow : m'.now = m.now)
    (hstopped : m'.stopped = m.stopped) : Frame newer spawning returning m m' where
  now := Nat.le_of_eq hnow.symm
  gone := fun _ hgone => hprocs ▸ hgone
  unborn := fun _ hunborn => hprocs ▸ hunborn
  records := fun _ r' hr' => Or.inr ⟨r', hsessions ▸ hr', Nat.le_refl _⟩
  kills := fun _ _ hw => hworkers ▸ hw
  spawns := fun _ _ hw => Or.inr (hworkers ▸ hw)
  stopped := fun _ hsid => Or.inr (hstopped ▸ hsid)

theorem Frame.refl (m : Manager) : Frame newer spawning returning m m :=
  .of_eq rfl rfl rfl rfl rfl

theorem Frame.trans {m'' : Manager} (h : Frame newer spawning returning m m')
    (h' : Frame newer spawning returning m' m'') : Frame newer spawning returning m m'' where
  now := Nat.le_trans h.now h'.now
  gone := fun pid hgone => h'.gone pid (h.gone pid hgone)
  unborn := fun pid hunborn => h.unborn pid (h'.unborn pid hunborn)
  records := by
    intro sid r'' hr''
    rcases h'.records sid r'' hr'' with hnewer | ⟨r', hr', hle'⟩
    · exact Or.inl hnewer
    · rcases h.records sid r' hr' with hnewer | ⟨r, hr, hle⟩
      · exact Or.inl hnewer
      · exact Or.inr ⟨r, hr, Nat.le_trans hle' hle⟩
  kills := fun sid pid hw => h.kills sid pid (h'.kills sid pid hw)
  spawns := fun sid n hw => (h'.spawns sid n hw).elim Or.inl (h.spawns sid n)
  stopped := fun sid hsid => (h'.stopped sid hsid).elim Or.inl (h.stopped sid)

theorem KeepsLocks.refl (m : Manager) : KeepsLocks m m := ⟨rfl, rfl, fun _ _ => id⟩

theorem KeepsLocks.trans {m'' : Manager} (h : KeepsLocks m m') (h' : KeepsLocks m' m'') :
    KeepsLocks m m'' :=
  ⟨h'.locks.trans h.locks, h'.nextLock.trans h.nextLock,
    fun sid n hn => h.table sid n (h'.table sid n hn)⟩

theorem KeepsLocks.of_eq (hlocks : m'.locks = m.locks) (hnext : m'.nextLock = m.nextLock)
    (htable : m'.sessionLocks = m.sessionLocks) : KeepsLocks m m' :=
  ⟨hlocks, hnext, fun _ _ hn => htable ▸ hn⟩

theorem Settles.refl (m : Manager) : Settles newer spawning returning m m :=
  ⟨.refl m, .refl m⟩

theorem Settles.trans {m'' : Manager} (h : Settles newer spawning returning m m')
    (h' : Settles newer spawning returning m' m'') : Settles newer spawning returning m m'' :=
  ⟨h.toFrame.trans h'.toFrame, h.toKeepsLocks.trans h'.toKeepsLocks⟩

/-- The step changes only the tables of launchers, transports and observers. -/
def SameButHandles (m m' : Manager) : Prop :=
  m' = { m with
    launchers := m'.launchers
    transports := m'.transports
    observers := m'.observers
    nextLauncher := m'.nextLauncher }

theorem SameButHandles.settles (h : SameButHandles m m') :
    Settles newer spawning returning m m' := by
  rw [h]
  exact ⟨.of_eq rfl rfl rfl rfl rfl, .of_eq rfl rfl rfl⟩

/-! ## Single changes -/

/-- Processes age. -/
theorem settles_procs (m : Manager) {procs : ℕ → Proc}
    (hgone : ∀ pid, m.procs pid = .gone → procs pid = .gone)
    (hunborn : ∀ pid, procs pid = .unborn → m.procs pid = .unborn) :
    Settles newer spawning returning m { m with procs := procs } where
  now := Nat.le_refl _
  gone := hgone
  unborn := hunborn
  records _ r' hr' := Or.inr ⟨r', hr', Nat.le_refl _⟩
  kills _ _ hw := hw
  spawns _ _ hw := Or.inr hw
  stopped _ hsid := Or.inr hsid
  toKeepsLocks := .of_eq rfl rfl rfl

/-- No worker thread comes up but the spawn that is named and stops that kill nothing. -/
theorem settles_workers (m : Manager) {workers : List Worker}
    (hkills : ∀ sid pid, .stop sid pid true ∈ workers → .stop sid pid true ∈ m.workers)
    (hspawns : ∀ sid n, .spawn sid n ∈ workers →
      spawning = some sid ∨ .spawn sid n ∈ m.workers) :
    Settles newer spawning returning m { m with workers := workers } where
  now := Nat.le_refl _
  gone _ hgone := hgone
  unborn _ hunborn := hunborn
  records _ r' hr' := Or.inr ⟨r', hr', Nat.le_refl _⟩
  kills := hkills
  spawns := hspawns
  stopped _ hsid := Or.inr hsid
  toKeepsLocks := .of_eq rfl rfl rfl

/-- No record gets newer, apart from that of the session that is named. -/
theorem settles_sessions (m : Manager) {sessions : Sessions}
    (hrecords : ∀ sid r', sessions.lookup sid = some r' →
      newer = some sid ∨ ∃ r, m.sessions.lookup sid = some r ∧ r'.lastActiveAt ≤ r.lastActiveAt) :
    Settles newer spawning returning m { m with sessions := sessions } where
  now := Nat.le_refl _
  gone _ hgone := hgone
  unborn _ hunborn := hunborn
  records := hrecords
  kills _ _ hw := hw
  spawns _ _ hw := Or.inr hw
  stopped _ hsid := Or.inr hsid
  toKeepsLocks := .of_eq rfl rfl rfl

theorem settles_kill (m : Manager) (pid : ℕ) : Settles newer spawning returning m (m.kill pid) := by
  unfold Manager.kill
  split
  · refine settles_procs m (fun other hgone => ?_) fun other hunborn => ?_
    · simp only [Function.update_apply]
      split
      · rfl
      · exact hgone
    · simp only [Function.update_apply] at hunborn
      split at hunborn
      · cases hunborn
      · exact hunborn
  · exact .refl m

theorem settles_spawn (m : Manager) (pid : ℕ) :
    Settles newer spawning returning m (m.spawn pid) := by
  unfold Manager.spawn
  split
  · rename_i hunborn
    refine settles_procs m (fun other hgone => ?_) fun other hother => ?_
    · have hne : other ≠ pid := by
        rintro rfl
        exact absurd (hgone.symm.trans hunborn) (by simp)
      simpa only [Function.update_of_ne hne] using hgone
    · simp only [Function.update_apply] at hother
      split at hother
      · cases hother
      · exact hother
  · exact .refl m

/-- A worker thread that goes on without its coroutine. -/
theorem settles_leave (m : Manager) {w : Worker} (hkill : ∀ sid pid, w ≠ .stop sid pid true)
    (hspawn : ∀ sid n, w = .spawn sid n → spawning = some sid) :
    Settles newer spawning returning m (m.leave w) := by
  have hcases {w' : Worker} (hw' : w' ∈ m.workers ++ [w]) : w' ∈ m.workers ∨ w' = w := by
    simpa using hw'
  refine settles_workers m (fun sid pid hw => ?_) fun sid n hw => ?_
  · rcases hcases hw with hw | rfl
    · exact hw
    · exact absurd rfl (hkill sid pid)
  · rcases hcases hw with hw | rfl
    · exact Or.inr hw
    · exact Or.inl (hspawn sid n rfl)

theorem settles_leave_stop (m : Manager) (sid : SessionId) (pid : ℕ) :
    Settles newer spawning returning m (m.leave (.stop sid pid false)) :=
  settles_leave m (by simp) (by simp)

theorem settles_endWorker (m : Manager) (w : Worker) (ok : Bool) :
    Settles newer spawning returning m (m.endWorker w ok) := by
  have herase : Settles newer spawning returning m { m with workers := m.workers.erase w } :=
    settles_workers m (fun _ _ hw => List.mem_of_mem_erase hw)
      fun _ _ hw => Or.inr (List.mem_of_mem_erase hw)
  unfold Manager.endWorker
  split <;> dsimp only <;> split
  · exact herase.trans (settles_spawn _ _)
  · exact herase
  · exact herase.trans (settles_kill _ _)
  · exact herase

/-- Time passes. -/
theorem frame_passes (m : Manager) (seconds : ℕ) :
    Frame newer spawning returning m { m with now := m.now + seconds } :=
  ⟨Nat.le_add_right _ _, fun _ => id, fun _ => id, fun _ r' hr' => Or.inr ⟨r', hr', Nat.le_refl _⟩,
    fun _ _ => id, fun _ _ => Or.inr, fun _ => Or.inr⟩

/-- An entry is dropped or replaced by the sentinel. -/
theorem settles_setEntry (m : Manager) (sid : SessionId) {ref : Option LockRef}
    (href : ∀ n, ref ≠ some (.object n)) :
    Settles newer spawning returning m (m.setEntry sid ref) := by
  refine ⟨.of_eq rfl rfl rfl rfl rfl, rfl, rfl, fun other n hn => ?_⟩
  simp only [Manager.setEntry, Function.update_apply] at hn
  split at hn
  · exact absurd hn (href n)
  · exact hn

/-- A section whose table has no newer records, apart from the session that is named. -/
theorem Settles.update {modify : Sessions → Option Sessions} {io : Io} {result : SectionResult}
    (h : m.updateSessions modify io = (m', result))
    (hmodify : ∀ reads sessions, modify (m.load reads) = some sessions →
      ∀ sid r', sessions.lookup sid = some r' → newer = some sid ∨
        ∃ r, (m.load reads).lookup sid = some r ∧ r'.lastActiveAt ≤ r.lastActiveAt) :
    Settles newer spawning returning m m' := by
  rcases Manager.updateSessions_cases h with rfl | ⟨reads, sessions, hsome, rfl⟩
  · exact .refl m'
  · refine settles_sessions m fun sid r' hr' => ?_
    rcases hmodify reads sessions hsome sid r' hr' with hnewer | ⟨r, hr, hle⟩
    · exact Or.inl hnewer
    · refine Or.inr ⟨r, ?_, hle⟩
      cases reads with
      | true => exact hr
      | false => simp [Manager.load] at hr

/-- A record that is inserted for the named session, or is not newer than the one read. -/
theorem lookup_insert_older {table : Sessions} {sid : SessionId} {r : Record}
    (h : newer = some sid ∨
      ∃ r₀, table.lookup sid = some r₀ ∧ r.lastActiveAt ≤ r₀.lastActiveAt)
    (other : SessionId) (r' : Record) (hr' : (table.insert sid r).lookup other = some r') :
    newer = some other ∨
      ∃ r₀, table.lookup other = some r₀ ∧ r'.lastActiveAt ≤ r₀.lastActiveAt := by
  by_cases hsid : other = sid
  · subst hsid
    rw [AList.lookup_insert] at hr'
    obtain rfl := Option.some.inj hr'
    exact h
  · rw [AList.lookup_insert_ne hsid] at hr'
    exact Or.inr ⟨r', hr', Nat.le_refl _⟩

/-- Erasing a record adds none. -/
theorem lookup_of_lookup_erase {table : Sessions} {sid other : SessionId} {r' : Record}
    (hr' : (table.erase sid).lookup other = some r') : table.lookup other = some r' := by
  by_cases hsid : other = sid
  · subst hsid
    simp at hr'
  · rwa [AList.lookup_erase_ne hsid] at hr'

theorem lookup_of_lookup_foldl_erase {sids : List SessionId} {table : Sessions}
    {other : SessionId} {r' : Record}
    (hr' : (sids.foldl (fun table sid => table.erase sid) table).lookup other = some r') :
    table.lookup other = some r' := by
  induction sids generalizing table with
  | nil => exact hr'
  | cons sid sids ih => exact lookup_of_lookup_erase (ih hr')

/-- What was read from the table is in it. -/
theorem lookup_of_lookup_load {reads : Bool} {sid : SessionId} {r : Record}
    (h : (m.load reads).lookup sid = some r) : m.sessions.lookup sid = some r := by
  cases reads with
  | true => exact h
  | false => simp [Manager.load] at h

/-! ## Stops and collections -/

theorem settles_stopRemove (m : Manager) (x : Stop) (io : Io)
    (hreturn : ∀ reads, io = .done reads → returning = some x.sid) :
    Settles newer spawning returning m (stopRemove m x io).1 := by
  have hsave {m' : Manager} {result : SectionResult}
      (h : m.updateSessions (fun sessions => some (sessions.erase x.sid)) io = (m', result)) :
      Settles newer spawning returning m m' := by
    refine .update h fun reads sessions hsome sid r' hr' => Or.inr ⟨r', ?_, Nat.le_refl _⟩
    obtain rfl := Option.some.inj hsome
    exact lookup_of_lookup_erase hr'
  unfold stopRemove
  split
  · rename_i m₁ heq
    have hdrop : Settles newer spawning returning m₁ (m₁.dropSentinel x.sid) := by
      unfold Manager.dropSentinel
      split
      · exact settles_setEntry m₁ _ (by simp)
      · exact .refl m₁
    have hreturned : returning = some x.sid := by
      cases io with
      | done reads => exact hreturn reads rfl
      | cutEarly => exact absurd (congrArg Prod.snd heq) (by simp [Manager.updateSessions])
      | saveRaises reads => exact absurd (congrArg Prod.snd heq) (by simp [Manager.updateSessions])
      | cutSaving reads landed =>
        exact absurd (congrArg Prod.snd heq) (by simp [Manager.updateSessions])
    refine (hsave heq).trans (hdrop.trans ⟨⟨Nat.le_refl _, fun _ => id, fun _ => id,
      fun _ r' hr' => Or.inr ⟨r', hr', Nat.le_refl _⟩, fun _ _ => id, fun _ _ => Or.inr,
      fun sid hsid => ?_⟩, .of_eq rfl rfl rfl⟩)
    have hstopped : (m₁.dropSentinel x.sid).stopped = m₁.stopped := by
      unfold Manager.dropSentinel
      split <;> rfl
    rw [hstopped]
    rcases List.mem_cons.mp hsid with rfl | hsid
    · exact Or.inl hreturned
    · exact Or.inr hsid
  · rename_i heq
    exact hsave heq

theorem settles_stopLook (m : Manager) (x : Stop) (reads : Bool) :
    Settles newer spawning returning m (stopLook m x reads).1 := by
  unfold stopLook
  split
  · exact .refl m
  · have hpop : Settles newer spawning returning m (m.popHandles x.sid) :=
      SameButHandles.settles rfl
    exact hpop.trans (settles_setEntry _ _ (by simp))

/-- A stop only drops records and handles, ends processes, and installs and removes the
sentinel. -/
theorem settles_stopStep {x : Stop} {o : Outcome} {r : Manager × Stop}
    (h : stopStep m x o = some r) : Settles newer spawning (x.returning o) m r.1 := by
  cases takes_of_stopStep h with
  | removes hphase =>
    refine settles_stopRemove m x _ fun reads hio => ?_
    simp [Stop.returning, hio, hphase]
  | _ =>
    first
      | exact .refl m
      | exact settles_kill m _
      | exact settles_leave_stop m _ _
      | exact settles_stopLook m x _

theorem settles_gcRemove (m : Manager) (g : Gc) (io : Io) :
    Settles newer spawning returning m (gcRemove m g io).1 := by
  refine .update (Prod.eta _).symm fun reads sessions hsome sid r' hr' =>
    Or.inr ⟨r', ?_, Nat.le_refl _⟩
  obtain rfl := Option.some.inj hsome
  exact lookup_of_lookup_foldl_erase hr'

/-- What a decision dooms. -/
theorem pending_gcDecide {g : Gc} {fresh : Sessions} {entries : List GcEntry}
    {d : SessionId × ℕ} (h : (gcDecide m g fresh entries).phase.pending = some d) :
    ∃ entry rest goal, entries = entry :: rest ∧ gcSkips m fresh entry.sid = false ∧
      entry.target = some goal ∧ d = (entry.sid, goal.process) := by
  unfold gcDecide at h
  split at h
  · exact absurd h (by simp [GcPhase.pending])
  · rename_i entry rest
    split at h
    · exact absurd h (by simp [GcPhase.pending])
    · rename_i hskips
      have hskips : gcSkips m fresh entry.sid = false := by simpa using hskips
      split at h
      · simp only [GcPhase.pending, Option.map_eq_some_iff] at h
        obtain ⟨goal, hgoal, rfl⟩ := h
        exact ⟨entry, rest, goal, rfl, hskips, hgoal, rfl⟩
      · unfold Gc.toKill at h
        split at h
        · rename_i goal hgoal
          exact ⟨entry, rest, goal, rfl, hskips, hgoal, (Option.some.inj h).symm⟩
        · exact absurd h (by simp [GcPhase.pending])

theorem pending_toKill (g : Gc) (fresh : Sessions) (entry : GcEntry) (entries : List GcEntry) :
    (g.toKill fresh entry entries).phase.pending =
      entry.target.map fun goal => (entry.sid, goal.process) := by
  unfold Gc.toKill
  split <;> rename_i htarget <;> simp [GcPhase.pending, htarget]

/-- A step of the collector keeps or drops what it dooms, decides, or is cancelled while
it kills. -/
theorem gcStep_cases {g : Gc} {o : Outcome} {r : Manager × Gc} (h : gcStep m g o = some r) :
    (Settles newer spawning returning m r.1 ∧
      ∀ d, r.2.phase.pending = some d → g.phase.pending = some d) ∨
    (∃ fresh entries, g.phase = .deciding fresh entries ∧ o = .returns ∧
      r = (m, gcDecide m g fresh entries)) ∨
    ∃ d, g.phase.pending = some d ∧
      r = (m.leave (.stop d.1 d.2 true), { g with phase := .ended }) := by
  -- Outside of `closing` and `killing` nothing is doomed.
  have hquiet {m' : Manager} {g' : Gc} (hsettles : Settles newer spawning returning m m')
      (hnone : g'.phase.pending = none) :
      Settles newer spawning returning m (m', g').1 ∧ ∀ d, (m', g').2.phase.pending = some d →
        g.phase.pending = some d :=
    ⟨hsettles, fun d hd => absurd (hnone.symm.trans hd) (by simp)⟩
  cases takes_of_gcStep h with
  | decides hphase => exact Or.inr (Or.inl ⟨_, _, hphase, rfl, rfl⟩)
  | closed hphase | closeRaises hphase =>
    refine Or.inl ⟨.refl m, fun d hd => ?_⟩
    rwa [hphase, GcPhase.pending, ← pending_toKill]
  | killed => exact Or.inl (hquiet (settles_kill m _) rfl)
  | killCancelled hphase => exact Or.inr (Or.inr ⟨_, by rw [hphase]; rfl, rfl⟩)
  | drops => exact Or.inl (hquiet (SameButHandles.settles rfl) rfl)
  | removes => exact Or.inl (hquiet (settles_gcRemove m g _) rfl)
  | _ => exact Or.inl (hquiet (.refl m) rfl)

/-! ## Starts -/

theorem settles_escape (m : Manager) (x : Start) :
    Settles newer spawning returning m (escape m x).1 := by
  unfold escape
  split
  · exact .refl m
  · split
    · exact .refl m
    · exact SameButHandles.settles rfl

theorem settles_afterHandles (m : Manager) (x : Start) (notFound : Bool) :
    Settles newer spawning returning m (afterHandles m x notFound).1 := by
  unfold afterHandles
  split
  · exact settles_escape m x
  · exact .refl m

theorem settles_gateRead (m : Manager) (x : Start) (reads : Bool) :
    Settles newer spawning returning m (gateRead m x reads).1 := by
  unfold gateRead
  split
  · exact .refl m
  · exact settles_escape m x

theorem settles_popTransport (m : Manager) (sid : SessionId) :
    Settles newer spawning returning m (m.popTransport sid) :=
  SameButHandles.settles rfl

theorem settles_spawnRaises (m : Manager) (launcher : ℕ) (born : Bool) :
    Settles newer spawning returning m (if born then m.spawn launcher else m) := by
  split
  · exact settles_spawn m launcher
  · exact .refl m

/-- The record of a new attempt is new. -/
theorem settles_persist (m : Manager) (x : Start) (port : ℕ) {io : Io}
    (hnewer : io ≠ .cutEarly → newer = some x.sid) :
    Settles newer spawning returning m (persist m x port io).1 := by
  have hsave {m' : Manager} {result : SectionResult}
      (h : m.updateSessions (fun sessions =>
        if portConflict m sessions x.sid port then none
        else some (sessions.insert x.sid (newRecord m x port))) io = (m', result)) :
      Settles newer spawning returning m m' := by
    cases io with
    | cutEarly =>
      obtain rfl : m = m' := congrArg Prod.fst h
      exact .refl m
    | _ =>
      refine .update h fun reads sessions hsome => ?_
      split at hsome
      · exact absurd hsome (by simp)
      · obtain rfl := Option.some.inj hsome
        exact lookup_insert_older (Or.inl (hnewer (by simp)))
  unfold persist
  dsimp only
  split <;> rename_i heq
  · exact hsave heq
  · exact (hsave heq).trans (SameButHandles.settles rfl)
  · exact (hsave heq).trans (settles_escape _ x)

/-- The record that the start holds is not newer than the one in the table, unless the
step counts as a touch. -/
theorem settles_markConnected (m : Manager) (x : Start) (io : Io)
    (hnewer : ∀ r, m.sessions.lookup x.sid = some r →
      r.lastActiveAt < x.record.lastActiveAt → newer = some x.sid) :
    Settles newer spawning returning m (markConnected m x io).1 := by
  have hsave {m' : Manager} {result : SectionResult}
      (h : m.updateSessions (fun sessions =>
        if x.sid ∈ sessions then some (sessions.insert x.sid (x.record.withWsConnected true))
        else none) io = (m', result)) : Settles newer spawning returning m m' := by
    refine .update h fun reads sessions hsome => ?_
    split at hsome
    · rename_i hmem
      obtain rfl := Option.some.inj hsome
      obtain ⟨r, hr⟩ := Option.isSome_iff_exists.mp (AList.lookup_isSome.mpr hmem)
      refine lookup_insert_older ?_
      have hread : m.sessions.lookup x.sid = some r := by
        cases reads with
        | true => exact hr
        | false => simp [Manager.load] at hr
      by_cases hlt : r.lastActiveAt < x.record.lastActiveAt
      · exact Or.inl (hnewer r hread hlt)
      · exact Or.inr ⟨r, hr, Nat.le_of_not_lt hlt⟩
    · exact absurd hsome (by simp)
  unfold markConnected
  dsimp only
  split <;> rename_i heq
  · exact hsave heq
  · exact hsave heq
  · exact (hsave heq).trans (settles_escape _ x)

/-- Sections that write back the record they read, up to fields other than its activity. -/
theorem Settles.rewrite {sid : SessionId} {io : Io} {result : SectionResult}
    (change : Record → Record) (hchange : ∀ r, (change r).lastActiveAt = r.lastActiveAt)
    (h : m.updateSessions (fun sessions =>
      (sessions.lookup sid).map fun r => sessions.insert sid (change r)) io = (m', result)) :
    Settles newer spawning returning m m' := by
  refine .update h fun reads sessions hsome => ?_
  obtain ⟨r, hr, rfl⟩ := Option.map_eq_some_iff.mp hsome
  exact lookup_insert_older (Or.inr ⟨r, hr, Nat.le_of_eq (hchange r)⟩)

theorem settles_updateWsConnected (m : Manager) (sid : SessionId) (connected : Bool) (io : Io) :
    Settles newer spawning returning m (m.updateWsConnected sid connected io).1 :=
  .rewrite (fun r => r.withWsConnected connected) (fun _ => rfl)
    (Prod.eta (m.updateWsConnected sid connected io)).symm

theorem settles_bind (m : Manager) (x : Start) (io : Io) :
    Settles newer spawning returning m (bind m x io).1 := by
  have hregister (m : Manager) : Settles newer spawning returning m (m.register x) :=
    SameButHandles.settles rfl
  have hsave {m' : Manager} {result : SectionResult}
      (h : m.updateSessions (fun sessions =>
        (sessions.lookup x.sid).map fun r => sessions.insert x.sid r) io = (m', result)) :
      Settles newer spawning returning m m' :=
    .rewrite id (fun _ => rfl) h
  unfold bind
  split <;> rename_i heq
  · exact (hsave heq).trans (hregister _)
  · exact hsave heq
  · exact (hsave heq).trans (hregister _)
  · refine (hsave heq).trans (Settles.trans ?_ (settles_escape _ x))
    split
    · exact hregister _
    · exact .refl _

theorem settles_fold (m : Manager) (x : Start) (io : Io) :
    Settles newer spawning returning m (fold m x io).1 := by
  have hsave {m' : Manager} {result : SectionResult}
      (h : m.updateSessions (fun sessions =>
        (sessions.lookup x.sid).map fun r =>
          sessions.insert x.sid { r with recovered := some x.attempt }) io = (m', result)) :
      Settles newer spawning returning m m' :=
    .rewrite (fun r => { r with recovered := some x.attempt }) (fun _ => rfl) h
  unfold fold
  split <;> rename_i heq
  · exact hsave heq
  · exact hsave heq
  · exact (hsave heq).trans (settles_escape _ x)

theorem settles_discard (m : Manager) (x : Start) (io : Io) :
    Settles newer spawning returning m (discard m x io).1 := by
  refine .update (Prod.eta _).symm fun reads sessions hsome sid r' hr' =>
    Or.inr ⟨r', ?_, Nat.le_refl _⟩
  split at hsome
  · obtain rfl := Option.some.inj hsome
    exact lookup_of_lookup_erase hr'
  · exact absurd hsome (by simp)

theorem settles_teardown (m : Manager) (x : Start) (why : Why) :
    Settles newer spawning returning m (teardown m x why).1 := by
  have hpop : Settles newer spawning returning m (m.popHandles x.sid) := SameButHandles.settles rfl
  exact hpop.trans (settles_setEntry _ _ (by simp))

/-- A start drops its session's entry of the lock table, makes its record newer by the
steps that count as touches, and leaves a spawning thread when it is cancelled there. -/
theorem settles_startStep {x : Start} {e : StartEvent} {r : Manager × Start}
    (h : startStep m x e = some r) :
    Settles (x.touched m e) (x.leavesSpawn e) returning m r.1 := by
  cases takes_of_startStep h with
  | spawned =>
    have hregister : SameButHandles (m.spawn x.launcher) { m.spawn x.launcher with
        launchers := Function.update (m.spawn x.launcher).launchers x.sid (some x.launcher) } := rfl
    exact (settles_spawn m _).trans hregister.settles
  | spawnCancelled hphase =>
    refine (settles_leave m (by simp) fun sid n hw => ?_).trans (settles_escape _ x)
    obtain ⟨rfl, _⟩ : x.sid = sid ∧ x.launcher = n := by simpa using hw
    simp [Start.leavesSpawn, hphase]
  | persists hphase =>
    exact settles_persist m x _ fun hio => by simp [Start.touched, hphase, hio]
  | marks hphase =>
    exact settles_markConnected m x _ fun r hr hlt => by simp [Start.touched, hphase, hr, hlt]
  | _ =>
    first
      | exact .refl m
      | exact SameButHandles.settles rfl
      | exact settles_escape m x
      | exact settles_kill m _
      | exact settles_leave_stop m _ _
      | exact (settles_kill m _).trans (settles_escape _ x)
      | exact (settles_leave_stop m _ _).trans (settles_escape _ x)
      | exact settles_spawnRaises m _ _
      | exact settles_gateRead m x _
      | exact settles_bind m x _
      | exact settles_fold m x _
      | exact settles_afterHandles m x _
      | exact (settles_popTransport m _).trans (settles_afterHandles _ x _)
      | exact settles_teardown m x _
      | exact settles_discard m x _

/-! ## Tool calls -/

theorem frame_touchSession {sid : SessionId} {live : Bool} {io : Io} {result : SectionResult}
    (hnewer : io ≠ .cutEarly → (m.sessions.lookup sid).isSome → newer = some sid)
    (h : m.touchSession sid live io = (m', result)) : Frame newer spawning returning m m' := by
  by_cases hio : io = .cutEarly
  · subst hio
    obtain rfl : m = m' := congrArg Prod.fst h
    exact .refl m
  · have hupdate : Settles newer spawning returning m m' := by
      refine .update h fun reads sessions hsome => ?_
      obtain ⟨r, hr, rfl⟩ := Option.map_eq_some_iff.mp hsome
      exact lookup_insert_older (Or.inl (hnewer hio (by simp [lookup_of_lookup_load hr])))
    exact hupdate.toFrame

theorem frame_sessionLock (m : Manager) (sid : SessionId) :
    Frame newer spawning returning m (m.sessionLock sid).1 := by
  unfold Manager.sessionLock
  split
  · exact .refl m
  · exact .of_eq rfl rfl rfl rfl rfl

theorem frame_enterLock (m : Manager) (i : TaskId) (x : Tool) (sid : SessionId) (ref : LockRef) :
    Frame newer spawning returning m (enterLock m i x sid ref).1 := by
  unfold enterLock
  split
  · exact .refl m
  · split <;> exact .of_eq rfl rfl rfl rfl rfl

theorem frame_afterTouch (m : Manager) (i : TaskId) (busy : SessionId → Bool) (x : Tool)
    (sid : SessionId) (after : After) :
    Frame newer spawning returning m (afterTouch m i busy x sid after).1 := by
  cases after with
  | enter => exact (frame_sessionLock m sid).trans (frame_enterLock _ i x sid _)
  | submit => exact .refl m
  | stay => exact .refl m

/-- A touch that was saved read the session's record. -/
theorem touchSession_saved {sid : SessionId} {live : Bool} {io : Io}
    (h : m.touchSession sid live io = (m', .saved)) :
    io ≠ .cutEarly ∧ (m.sessions.lookup sid).isSome = true := by
  constructor
  · rintro rfl
    exact absurd (congrArg Prod.snd h) (by simp [Manager.touchSession, Manager.updateSessions])
  · obtain ⟨reads, sessions, hsome, _⟩ := Manager.updateSessions_saved h
    obtain ⟨r, hr, _⟩ := Option.map_eq_some_iff.mp hsome
    simp [lookup_of_lookup_load hr]

/-- A tool makes no record newer but by its touches. -/
theorem frame_toolStep {i : TaskId} {busy : SessionId → Bool} {x : Tool} {e : ToolEvent}
    {r : Manager × Tool × Option SessionId} (h : toolStep m i busy x e = some r) :
    Frame (x.touched m e) spawning returning m r.1 := by
  -- A touch that reads a record makes it newer.
  have hnewer {sid : SessionId} {after : After} {io : Io} {live : Bool}
      (hphase : x.phase = .touching sid after) (hio : io ≠ .cutEarly)
      (hsome : (m.sessions.lookup sid).isSome) : x.touched m (.touches io live) = some sid := by
    obtain ⟨r, hr⟩ := Option.isSome_iff_exists.mp hsome
    simp [Tool.touched, hphase, hio, hr]
  cases takes_of_toolStep h with
  | @touches sid after _ _ _ htouch hphase =>
    exact (frame_touchSession (hnewer hphase) htouch).trans (frame_afterTouch _ i busy x sid after)
  | touchFails htouch _ hphase => exact frame_touchSession (hnewer hphase) htouch
  | leaves | granted | withdraws => exact .of_eq rfl rfl rfl rfl rfl
  | _ => exact .refl m

end Session
