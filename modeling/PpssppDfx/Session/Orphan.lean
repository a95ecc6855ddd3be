import PpssppDfx.Session.Custody

/-!
# Processes that a failed start leaves behind

When a start exits without a session, the processes it spawned have to be stopped or
still owned. A start that is cancelled while the worker thread spawns has nothing in its
hands to stop, and the process that comes into being has no owner.

## Main results

* `leavesNoOrphan_of_reaches` — a start that exits leaves no orphan process, in runs where
  no step of it loses hold of the process and no other task takes it away
* `orphan_after_cancel` — a run in which a cancelled start leaves one
-/

set_option autoImplicit false

namespace Session

open Semantics

/-! ## The condition -/

/-- The start that runs as the task. -/
def State.startOf (s : State) (i : TaskId) : Option Start :=
  match s.tasks i with
  | .start t => some t
  | _ => none

/-- The event by which the task's start goes on. -/
def Event.startEvent (i : TaskId) : Event → Option StartEvent
  | .start j e => if j = i then some e else none
  | _ => none

/-- The start of the task loses hold of its process by no step of its own, and no step of
anyone else takes it away. -/
def HoldsOn (i : TaskId) (s : State) (e : Event) : Prop :=
  ∀ t ∈ s.startOf i, (∀ e' ∈ e.startEvent i, t.losesHold s.mgr e' = false) ∧
    ((e.startEvent i).isNone = true → ∀ u ∈ machine.step s e, t.Keeps s.mgr u.mgr)

instance (i : TaskId) (s : State) (e : Event) : Decidable (HoldsOn i s e) :=
  inferInstanceAs (Decidable (∀ t ∈ s.startOf i, _))

/-- The same with late saves, which do not take the process away either. -/
def HoldsOnLate (i : TaskId) (l : Lingering) : LateEvent → Prop
  | .server e => HoldsOn i l.server e
  | .lands k => ∀ table ∈ l.saves[k]?, ∀ t ∈ l.server.startOf i,
      t.Keeps l.server.mgr (l.server.mgr.save table)
  | .updateWsConnected .. | .overtaken _ => True

instance (i : TaskId) (l : Lingering) (e : LateEvent) : Decidable (HoldsOnLate i l e) :=
  match e with
  | .server e => inferInstanceAs (Decidable (HoldsOn i l.server e))
  | .lands k => inferInstanceAs (Decidable (∀ table ∈ l.saves[k]?, _))
  | .updateWsConnected .. | .overtaken _ => inferInstanceAs (Decidable True)

variable {m m' : Manager} {t : Start}

/-! ## What a start does to others -/

/-- A start spawns only under its number and registers handles only for its session. -/
structure Confined (t : Start) (m m' : Manager) : Prop where
  procs : ∀ pid, pid ≠ t.launcher → m'.procs pid = .alive → m.procs pid = .alive
  transports : ∀ sid, sid ≠ t.sid → m'.transports sid = m.transports sid
  observers : ∀ sid, sid ≠ t.sid → m'.observers sid = m.observers sid
  spawns : ∀ sid n, .spawn sid n ∈ m'.workers → n = t.launcher ∨ .spawn sid n ∈ m.workers
  nextLauncher : m.nextLauncher ≤ m'.nextLauncher

theorem Confined.trans {m'' : Manager} (h : Confined t m m') (h' : Confined t m' m'') :
    Confined t m m'' where
  procs := fun pid hne halive => h.procs pid hne (h'.procs pid hne halive)
  transports := fun sid hne => (h'.transports sid hne).trans (h.transports sid hne)
  observers := fun sid hne => (h'.observers sid hne).trans (h.observers sid hne)
  spawns := fun sid n hn => (h'.spawns sid n hn).elim Or.inl (h.spawns sid n)
  nextLauncher := Nat.le_trans h.nextLauncher h'.nextLauncher

/-- Changes that leave the processes, the threads and other sessions' handles alone. -/
theorem Confined.of_eq (hprocs : m'.procs = m.procs)
    (htransports : ∀ sid, sid ≠ t.sid → m'.transports sid = m.transports sid)
    (hobservers : ∀ sid, sid ≠ t.sid → m'.observers sid = m.observers sid)
    (hworkers : m'.workers = m.workers) (hnext : m.nextLauncher ≤ m'.nextLauncher) :
    Confined t m m' :=
  ⟨fun _ _ halive => hprocs ▸ halive, htransports, hobservers,
    fun _ _ hn => Or.inr (hworkers ▸ hn), hnext⟩

theorem Confined.refl (t : Start) (m : Manager) : Confined t m m :=
  .of_eq rfl (fun _ _ => rfl) (fun _ _ => rfl) rfl (Nat.le_refl _)

theorem confined_update {modify : Sessions → Option Sessions} {io : Io} {result : SectionResult}
    (h : m.updateSessions modify io = (m', result)) : Confined t m m' := by
  rw [updateSessions_save h]
  exact .of_eq rfl (fun _ _ => rfl) (fun _ _ => rfl) rfl (Nat.le_refl _)

theorem confined_kill (t : Start) (m : Manager) (n : ℕ) : Confined t m (m.kill n) := by
  have hinert : Inert t.sid m (m.kill n) := inert_kill m n
  refine ⟨fun pid _ => hinert.procs pid, fun sid _ => ?_, fun sid _ => ?_, fun sid n hn => ?_, ?_⟩
  all_goals unfold Manager.kill at *
  · split <;> rfl
  · split <;> rfl
  · refine Or.inr ?_
    split at hn <;> exact hn
  · split <;> exact Nat.le_refl _

theorem confined_spawn (t : Start) (m : Manager) : Confined t m (m.spawn t.launcher) := by
  unfold Manager.spawn
  split
  · refine ⟨fun pid hne halive => ?_, fun _ _ => rfl, fun _ _ => rfl, fun _ _ => Or.inr,
      Nat.le_refl _⟩
    simpa [Function.update_of_ne hne] using halive
  · exact .refl t m

theorem confined_leave (m : Manager) {w : Worker}
    (hw : ∀ sid n, w = .spawn sid n → n = t.launcher) : Confined t m (m.leave w) := by
  refine ⟨fun _ _ => id, fun _ _ => rfl, fun _ _ => rfl, fun sid n hn => ?_, Nat.le_refl _⟩
  rcases List.mem_append.mp hn with hold | hnew
  · exact Or.inr hold
  · exact Or.inl (hw sid n (List.mem_singleton.mp hnew).symm)

theorem confined_popTransport (t : Start) (m : Manager) :
    Confined t m (m.popTransport t.sid) :=
  .of_eq rfl (fun _ hne => Function.update_of_ne hne _ _) (fun _ _ => rfl) rfl (Nat.le_refl _)

theorem confined_popObserver (t : Start) (m : Manager) : Confined t m (m.popObserver t.sid) :=
  .of_eq rfl (fun _ _ => rfl) (fun _ hne => Function.update_of_ne hne _ _) rfl (Nat.le_refl _)

theorem confined_register (t : Start) (m : Manager) : Confined t m (m.register t) :=
  .of_eq rfl (fun _ hne => Function.update_of_ne hne _ _)
    (fun _ hne => Function.update_of_ne hne _ _) rfl (Nat.le_refl _)

theorem confined_teardown (m : Manager) (t : Start) (why : Why) :
    Confined t m (teardown m t why).1 :=
  .of_eq rfl (fun _ hne => Function.update_of_ne hne _ _)
    (fun _ hne => Function.update_of_ne hne _ _) rfl (Nat.le_refl _)

theorem confined_escape (m : Manager) (t : Start) : Confined t m (escape m t).1 := by
  unfold escape
  split
  · exact .refl t m
  · split
    · exact .refl t m
    · exact .of_eq rfl (fun _ _ => rfl) (fun _ _ => rfl) rfl (Nat.le_refl _)

theorem confined_afterHandles (m : Manager) (t : Start) (notFound : Bool) :
    Confined t m (afterHandles m t notFound).1 := by
  unfold afterHandles
  split
  · exact confined_escape m t
  · exact .refl t m

theorem confined_persist (m : Manager) (t : Start) (port : ℕ) (io : Io) :
    Confined t m (persist m t port io).1 := by
  unfold persist
  dsimp only
  split <;> rename_i heq
  · exact confined_update heq
  · exact (confined_update heq).trans
      (.of_eq rfl (fun _ _ => rfl) (fun _ _ => rfl) rfl (Nat.le_refl _))
  · exact (confined_update heq).trans (confined_escape _ t)

theorem confined_markConnected (m : Manager) (t : Start) (io : Io) :
    Confined t m (markConnected m t io).1 := by
  unfold markConnected
  dsimp only
  split <;> rename_i heq
  · exact confined_update heq
  · exact confined_update heq
  · exact (confined_update heq).trans (confined_escape _ t)

theorem confined_bind (m : Manager) (t : Start) (io : Io) : Confined t m (bind m t io).1 := by
  unfold bind
  split <;> rename_i heq
  · exact (confined_update heq).trans (confined_register t _)
  · exact confined_update heq
  · exact (confined_update heq).trans (confined_register t _)
  · refine (confined_update heq).trans (Confined.trans ?_ (confined_escape _ t))
    split
    · exact confined_register t _
    · exact .refl t _

theorem confined_gateRead (m : Manager) (t : Start) (reads : Bool) :
    Confined t m (gateRead m t reads).1 := by
  unfold gateRead
  split
  · exact .refl t m
  · exact confined_escape m t

theorem confined_fold (m : Manager) (t : Start) (io : Io) : Confined t m (fold m t io).1 := by
  unfold fold
  split <;> rename_i heq
  · exact confined_update heq
  · exact confined_update heq
  · exact (confined_update heq).trans (confined_escape _ t)

theorem confined_spawnRaises (m : Manager) (t : Start) (born : Bool) :
    Confined t m (if born then m.spawn t.launcher else m) := by
  split
  · exact confined_spawn t m
  · exact .refl t m

/-- A step of a start leaves the processes and handles of others alone. -/
theorem confined_startStep {e : StartEvent} {r : Manager × Start}
    (h : startStep m t e = some r) : Confined t m r.1 := by
  cases takes_of_startStep h with
  | spawned =>
    exact (confined_spawn t m).trans
      (.of_eq rfl (fun _ _ => rfl) (fun _ _ => rfl) rfl (Nat.le_refl _))
  | spawnCancelled =>
    exact (confined_leave m fun _ _ hw => (Worker.spawn.inj hw).2.symm).trans (confined_escape _ t)
  | relaunches => exact .of_eq rfl (fun _ _ => rfl) (fun _ _ => rfl) rfl (Nat.le_succ _)
  | discards => exact confined_update (Prod.eta _).symm
  | _ =>
    first
      | exact .refl t m
      | exact confined_popObserver t m
      | exact confined_kill t m _
      | exact confined_leave m (fun _ _ hw => Worker.noConfusion hw)
      | exact confined_escape m t
      | exact (confined_kill t m _).trans (confined_escape _ t)
      | exact (confined_leave m (fun _ _ hw => Worker.noConfusion hw)).trans (confined_escape _ t)
      | exact confined_spawnRaises m t _
      | exact confined_persist m t _ _
      | exact confined_markConnected m t _
      | exact confined_bind m t _
      | exact confined_afterHandles m t _
      | exact (confined_popTransport t m).trans (confined_afterHandles _ t _)
      | exact confined_gateRead m t _
      | exact confined_fold m t _
      | exact confined_teardown m t _

/-! ## What other tasks do to starts -/

variable {s u : State} {i : TaskId}

/-- A step by which no start goes on. -/
structure Bystands (s u : State) : Prop where
  starts : ∀ j y, u.tasks j = .start y ↔ s.tasks j = .start y
  procs : ∀ pid, u.mgr.procs pid = .alive → s.mgr.procs pid = .alive ∨
    ∃ sid, .spawn sid pid ∈ s.mgr.workers
  gone : ∀ pid, s.mgr.procs pid = .gone → u.mgr.procs pid = .gone
  unborn : ∀ pid, u.mgr.procs pid = .unborn → s.mgr.procs pid = .unborn
  transports : ∀ sid, u.mgr.transports sid = none ∨ u.mgr.transports sid = s.mgr.transports sid
  observers : ∀ sid, u.mgr.observers sid = none ∨ u.mgr.observers sid = s.mgr.observers sid
  spawns : ∀ sid n, .spawn sid n ∈ u.mgr.workers → .spawn sid n ∈ s.mgr.workers
  nextLauncher : u.mgr.nextLauncher = s.mgr.nextLauncher

/-- The manager's part of a step by which no start goes on. -/
theorem Bystands.of_inert {newer returned : Option SessionId}
    (hstarts : ∀ j y, u.tasks j = .start y ↔ s.tasks j = .start y)
    (hinert : ∀ sid, Inert sid s.mgr u.mgr) (hframe : Frame newer none returned s.mgr u.mgr) :
    Bystands s u where
  starts := hstarts
  procs := fun pid halive => Or.inl ((hinert 0).procs pid halive)
  gone := hframe.gone
  unborn := hframe.unborn
  transports := fun sid => (hinert sid).transport
  observers := fun sid => (hinert sid).observer
  spawns := fun sid n hn => (hframe.spawns sid n hn).resolve_left (by simp)
  nextLauncher := (hinert 0).nextLauncher

theorem Bystands.trans {v : State} (h : Bystands s u) (h' : Bystands u v)
    (hprocs : u.mgr = v.mgr) : Bystands s v where
  starts := fun j y => (h'.starts j y).trans (h.starts j y)
  procs := fun pid halive => h.procs pid (hprocs ▸ halive)
  gone := fun pid hgone => h'.gone pid (h.gone pid hgone)
  unborn := fun pid hunborn => h.unborn pid (h'.unborn pid hunborn)
  transports := fun sid => hprocs ▸ h.transports sid
  observers := fun sid => hprocs ▸ h.observers sid
  spawns := fun sid n hn => h.spawns sid n (h'.spawns sid n hn)
  nextLauncher := h'.nextLauncher.trans h.nextLauncher

theorem starts_setTask {m : Manager} {task : Task} (hi : ∀ y, s.tasks i ≠ .start y)
    (htask : ∀ y, task ≠ .start y) (j : TaskId) (y : Start) :
    (s.setTask m i task).tasks j = .start y ↔ s.tasks j = .start y := by
  by_cases hji : j = i
  · subst hji
    simp only [State.setTask, Function.update_self]
    exact iff_of_false (htask y) (hi y)
  · simp only [State.setTask, Function.update_of_ne hji]

theorem starts_addTask {task : Task} (hfresh : TasksFresh s) (htask : ∀ y, task ≠ .start y)
    (j : TaskId) (y : Start) : (s.addTask task).tasks j = .start y ↔ s.tasks j = .start y := by
  by_cases hj : j = s.nextTask
  · subst hj
    simp only [State.addTask, Function.update_self]
    refine iff_of_false (htask y) ?_
    rw [hfresh s.nextTask (Nat.le_refl _)]
    simp
  · simp only [State.addTask, Function.update_of_ne hj]

theorem bystands_addTask {task : Task} (hfresh : TasksFresh s) (htask : ∀ y, task ≠ .start y) :
    Bystands s (s.addTask task) := by
  have hframe : Frame none none none s.mgr (s.addTask task).mgr := .refl s.mgr
  exact .of_inert (starts_addTask hfresh htask) (fun _ => .refl s.mgr) hframe

/-- A thread that ends carries out what it was left to do. -/
theorem bystands_endWorker {w : Worker} {ok : Bool} (hw : w ∈ s.mgr.workers) :
    Bystands s { s with mgr := s.mgr.endWorker w ok } := by
  have hsettles : Settles none none none s.mgr (s.mgr.endWorker w ok) := settles_endWorker _ w ok
  refine ⟨fun _ _ => Iff.rfl, fun pid halive => ?_, hsettles.gone, hsettles.unborn,
    fun sid => Or.inr ?_, fun sid => Or.inr ?_,
    fun sid n hn => (hsettles.spawns sid n hn).resolve_left (by simp), ?_⟩
  all_goals unfold Manager.endWorker at *
  · cases w with
    | spawn sid n =>
      dsimp only at halive
      split at halive
      · by_cases hpid : pid = n
        · subst hpid
          exact Or.inr ⟨sid, hw⟩
        · left
          unfold Manager.spawn at halive
          split at halive
          · simpa [Function.update_of_ne hpid] using halive
          · exact halive
      · exact Or.inl halive
    | stop sid n byGc =>
      dsimp only at halive
      left
      split at halive
      · have hinert (m : Manager) : Inert sid m (m.kill n) := inert_kill m n
        exact (hinert { s.mgr with workers := s.mgr.workers.erase _ }).procs pid halive
      · exact halive
  all_goals
    cases w <;> dsimp only <;> split <;>
      first
      | rfl
      | (unfold Manager.spawn; split <;> rfl)
      | (unfold Manager.kill; split <;> rfl)

theorem bystands_gc {g : Gc} {o : Outcome} {q : Manager × Gc} (hi : s.tasks i = .gc g)
    (hq : gcStep s.mgr g o = some q) : Bystands s (s.setTask q.1 i (.gc q.2)) := by
  have hstarts : ∀ j y, (s.setTask q.1 i (.gc q.2)).tasks j = .start y ↔ s.tasks j = .start y :=
    starts_setTask (by simp [hi]) (by simp)
  have hinert (sid : SessionId) : Inert sid s.mgr q.1 := inert_gcStep hq
  have hcases : (Settles none none none s.mgr q.1 ∧ _) ∨ _ := gcStep_cases hq
  rcases hcases with ⟨hsettles, _⟩ | ⟨_, _, _, _, rfl⟩ | ⟨d, _, rfl⟩
  · exact .of_inert hstarts hinert hsettles.toFrame
  · have hframe : Frame none none none s.mgr s.mgr := .refl s.mgr
    exact .of_inert hstarts hinert hframe
  · exact ⟨hstarts, fun _ => Or.inl, fun _ => id, fun _ => id, fun _ => Or.inr rfl,
      fun _ => Or.inr rfl, fun _ _ hn => by simpa [Manager.leave, State.setTask] using hn, rfl⟩

/-- Every event by which no start begins or goes on. -/
theorem bystands_step {e : Event} (hfresh : TasksFresh s) (hstep : machine.step s e = some u)
    (hcall : ∀ sid resilient maxRestarts, e ≠ .callStart sid resilient maxRestarts)
    (hstart : ∀ j e', e ≠ .start j e') : Bystands s u := by
  have htool {j : TaskId} {e : ToolEvent} {x y : Tool} {m : Manager} {o : Option SessionId}
      (hj : s.tasks j = .tool x) (hr : toolStep s.mgr j s.busy x e = some (m, y, o)) :
      Bystands s (s.setTask m j (.tool y)) := by
    have hframe : Frame (x.touched s.mgr e) none none s.mgr m := frame_toolStep hr
    exact .of_inert (starts_setTask (by simp [hj]) (by simp)) (fun _ => inert_toolStep hr) hframe
  cases takes_of_step hstep with
  | callTool => exact bystands_addTask hfresh (by simp)
  | callStop sid => exact bystands_addTask hfresh (by simp)
  | callGc => exact bystands_addTask hfresh (by simp)
  | callStart _ => exact absurd rfl (hcall _ _ _)
  | start _ _ => exact absurd rfl (hstart _ _)
  | tool hj hr => exact htool hj hr
  | @submits j _ _ y m _ hj hr =>
    have hfresh' : TasksFresh (s.setTask m j (.tool y)) := hfresh.setTask (by simp [hj]) _ _
    exact (htool hj hr).trans (bystands_addTask hfresh' (by simp [jobTask])) rfl
  | @stop j o x r hj hr =>
    have hsettles : Settles none none (x.returning o) s.mgr r.1 := settles_stopStep hr
    exact .of_inert (starts_setTask (by simp [hj]) (by simp)) (fun _ => inert_stopStep hr)
      hsettles.toFrame
  | gc hj hr => exact bystands_gc hj hr
  | worker hw ok => exact bystands_endWorker hw
  | dies pid =>
    have hsettles : Settles none none none s.mgr (s.mgr.kill pid) := settles_kill _ pid
    exact .of_inert (fun _ _ => Iff.rfl) (fun _ => inert_kill s.mgr pid) hsettles.toFrame
  | passes seconds =>
    have hframe : Frame none none none s.mgr { s.mgr with now := s.mgr.now + seconds } :=
      frame_passes s.mgr seconds
    exact .of_inert (fun _ _ => Iff.rfl)
      (fun _ => ⟨id, Or.inr rfl, Or.inr rfl, Or.inr rfl, fun _ => id, rfl⟩) hframe

/-! ## Starts are separate -/

/-- Launcher numbers are given out once, starts have sessions and launchers of their own,
and only sessions with a start have handles. -/
structure Separate (s : State) : Prop where
  starts : ∀ j y, s.tasks j = .start y → y.launcher < s.mgr.nextLauncher
  spawns : ∀ sid n, .spawn sid n ∈ s.mgr.workers → n < s.mgr.nextLauncher
  apart : ∀ j k y z, s.tasks j = .start y → s.tasks k = .start z → j ≠ k →
    y.sid ≠ z.sid ∧ y.launcher ≠ z.launcher
  bound : ∀ sid, s.mgr.transports sid ≠ none ∨ s.mgr.observers sid ≠ none →
    ∃ j y, s.tasks j = .start y ∧ y.sid = sid

theorem Separate.bystands (h : Separate s) (hby : Bystands s u) : Separate u where
  starts := fun j y hj => hby.nextLauncher ▸ h.starts j y ((hby.starts j y).mp hj)
  spawns := fun sid n hn => hby.nextLauncher ▸ h.spawns sid n (hby.spawns sid n hn)
  apart := fun j k y z hj hk =>
    h.apart j k y z ((hby.starts j y).mp hj) ((hby.starts k z).mp hk)
  bound := by
    intro sid hhandle
    have hbefore : s.mgr.transports sid ≠ none ∨ s.mgr.observers sid ≠ none :=
      hhandle.imp (fun hne => (hby.transports sid).resolve_left hne ▸ hne)
        fun hne => (hby.observers sid).resolve_left hne ▸ hne
    obtain ⟨j, y, hj, hsid⟩ := h.bound sid hbefore
    exact ⟨j, y, (hby.starts j y).mpr hj, hsid⟩

/-- A session id that is fresh has no start. -/
theorem ne_of_freshId {sid : SessionId} (hfresh : TasksFresh s) (hid : s.freshId sid = true)
    {j : TaskId} {y : Start} (hj : s.tasks j = .start y) : y.sid ≠ sid := by
  have hlt : j < s.nextTask := by
    refine Nat.lt_of_not_le fun hle => ?_
    exact absurd (hj.symm.trans (hfresh j hle)) (by simp)
  simp only [State.freshId, Bool.and_eq_true, List.all_eq_true, List.mem_range] at hid
  simpa [hj, Task.starts] using hid.2 j hlt

/-- The task of a new start. -/
theorem startOf_addTask {x y : Start} {j : TaskId} {m : Manager}
    (h : ({ s with mgr := m }.addTask (.start x)).tasks j = .start y) :
    j = s.nextTask ∧ y = x ∨ s.tasks j = .start y := by
  by_cases hj : j = s.nextTask
  · subst hj
    simp only [State.addTask, Function.update_self, Task.start.injEq] at h
    exact Or.inl ⟨rfl, h.symm⟩
  · simp only [State.addTask, Function.update_of_ne hj] at h
    exact Or.inr h

theorem Separate.callStart {sid : SessionId} {resilient : Bool} {maxRestarts : ℕ}
    (h : Separate s) (hfresh : TasksFresh s) (hid : s.freshId sid = true) :
    Separate ({ s with mgr := (startSession s.mgr sid resilient maxRestarts).1 }.addTask
      (.start (startSession s.mgr sid resilient maxRestarts).2)) where
  starts := by
    intro j y hj
    rcases startOf_addTask hj with ⟨_, rfl⟩ | hj
    · exact Nat.lt_succ_self _
    · exact Nat.lt_succ_of_lt (h.starts j y hj)
  spawns := fun sid n hn => Nat.lt_succ_of_lt (h.spawns sid n hn)
  apart := by
    intro j k y z hj hk hne
    rcases startOf_addTask hj with ⟨hjnew, rfl⟩ | hj <;>
      rcases startOf_addTask hk with ⟨hknew, rfl⟩ | hk
    · exact absurd (hjnew.trans hknew.symm) hne
    · exact ⟨(ne_of_freshId hfresh hid hk).symm, Nat.ne_of_gt (h.starts k z hk)⟩
    · exact ⟨ne_of_freshId hfresh hid hj, Nat.ne_of_lt (h.starts j y hj)⟩
    · exact h.apart j k y z hj hk hne
  bound := by
    intro other hhandle
    obtain ⟨j, y, hj, hsid⟩ := h.bound other hhandle
    have hjne : j ≠ s.nextTask := by
      rintro rfl
      exact absurd (hj.symm.trans (hfresh s.nextTask (Nat.le_refl _))) (by simp)
    exact ⟨j, y, by simpa only [State.addTask, Function.update_of_ne hjne] using hj, hsid⟩

/-- A start keeps its launcher, or gets the next number. -/
theorem launcher_startStep {e : StartEvent} {r : Manager × Start}
    (h : startStep m t e = some r) : r.2.launcher = t.launcher ∨
      r.2.launcher = m.nextLauncher ∧ r.1.nextLauncher = m.nextLauncher + 1 := by
  rcases startStep_attempt h with hsame | ⟨_, rfl⟩
  · exact Or.inl hsame.launcher
  · exact Or.inr ⟨rfl, rfl⟩

/-- The start that goes on, and the others. -/
theorem startOf_setTask {x y : Start} {j k : TaskId} {m : Manager}
    (h : (s.setTask m j (.start x)).tasks k = .start y) :
    k = j ∧ y = x ∨ k ≠ j ∧ s.tasks k = .start y := by
  by_cases hkj : k = j
  · subst hkj
    simp only [State.setTask, Function.update_self, Task.start.injEq] at h
    exact Or.inl ⟨rfl, h.symm⟩
  · simp only [State.setTask, Function.update_of_ne hkj] at h
    exact Or.inr ⟨hkj, h⟩

theorem Separate.start {j : TaskId} {x : Start} {e : StartEvent} {r : Manager × Start}
    (h : Separate s) (hj : s.tasks j = .start x) (hr : startStep s.mgr x e = some r) :
    Separate (s.setTask r.1 j (.start r.2)) := by
  have hconfined : Confined x s.mgr r.1 := confined_startStep hr
  have hsid : r.2.sid = x.sid := sid_startStep hr
  have hlauncher := launcher_startStep hr
  refine ⟨fun k y hk => ?_, fun sid n hn => ?_, fun k l y z hk hl hne => ?_,
    fun sid hhandle => ?_⟩
  · rcases startOf_setTask hk with ⟨_, rfl⟩ | ⟨_, hk⟩
    · rcases hlauncher with hsame | ⟨hnew, hnext⟩
      · exact hsame ▸ Nat.lt_of_lt_of_le (h.starts j x hj) hconfined.nextLauncher
      · simp only [State.setTask, hnew, hnext]
        exact Nat.lt_succ_self _
    · exact Nat.lt_of_lt_of_le (h.starts k y hk) hconfined.nextLauncher
  · refine Nat.lt_of_lt_of_le ?_ hconfined.nextLauncher
    rcases hconfined.spawns sid n hn with rfl | hold
    · exact h.starts j x hj
    · exact h.spawns sid n hold
  · -- The start that goes on stays apart from the start of another task.
    have hapart {k : TaskId} {y : Start} (hk : s.tasks k = .start y) (hkj : k ≠ j) :
        y.sid ≠ r.2.sid ∧ y.launcher ≠ r.2.launcher := by
      obtain ⟨hsids, hlaunchers⟩ := h.apart k j y x hk hj hkj
      refine ⟨hsid ▸ hsids, ?_⟩
      rcases hlauncher with hsame | ⟨hnew, _⟩
      · exact hsame ▸ hlaunchers
      · exact hnew ▸ Nat.ne_of_lt (h.starts k y hk)
    rcases startOf_setTask hk with ⟨hkj, rfl⟩ | ⟨hkj, hky⟩ <;>
      rcases startOf_setTask hl with ⟨hlj, rfl⟩ | ⟨hlj, hlz⟩
    · exact absurd (hkj.trans hlj.symm) hne
    · exact ⟨(hapart hlz hlj).1.symm, (hapart hlz hlj).2.symm⟩
    · exact hapart hky hkj
    · exact h.apart k l y z hky hlz hne
  · by_cases hown : sid = x.sid
    · exact ⟨j, r.2, by simp [State.setTask], hsid.trans hown.symm⟩
    · have hbefore : s.mgr.transports sid ≠ none ∨ s.mgr.observers sid ≠ none := by
        rw [← hconfined.transports sid hown, ← hconfined.observers sid hown]
        exact hhandle
      obtain ⟨k, y, hk, hy⟩ := h.bound sid hbefore
      have hkj : k ≠ j := by
        rintro rfl
        obtain rfl := Task.start.inj (hj.symm.trans hk)
        exact hown hy.symm
      exact ⟨k, y, by simpa only [State.setTask, Function.update_of_ne hkj] using hk, hy⟩

/-! ## Invariant -/

/-- The start of the task has its process in place, the earlier ones are gone, and no
thread spawns one. -/
structure Accounted (m : Manager) (t : Start) : Prop where
  placed : Placed m t
  earlier : EarlierGone m t
  spawns : ∀ sid, Worker.spawn sid t.launcher ∉ m.workers

theorem Accounted.rely (h : Accounted m t) (hrely : Rely t m m')
    (hspawns : ∀ sid, .spawn sid t.launcher ∈ m'.workers → .spawn sid t.launcher ∈ m.workers) :
    Accounted m' t where
  placed := h.placed.rely hrely
  earlier := fun pid hpid hne => hrely.gone pid (h.earlier pid hpid hne)
  spawns := fun sid hn => h.spawns sid (hspawns sid hn)

/-- A step of the start itself. -/
theorem Accounted.startStep {e : StartEvent} {r : Manager × Start} (h : Accounted m t)
    (hnext : ∀ sid n, .spawn sid n ∈ m.workers → n < m.nextLauncher)
    (hholds : t.losesHold m e = false) (hr : startStep m t e = some r) : Accounted r.1 r.2 := by
  have hsettles : Settles (t.touched m e) (t.leavesSpawn e) none m r.1 := settles_startStep hr
  have hspawns (sid : SessionId) (n : ℕ) (hn : .spawn sid n ∈ r.1.workers) :
      .spawn sid n ∈ m.workers := by
    refine (hsettles.spawns sid n hn).resolve_left fun hleaves => ?_
    unfold Start.leavesSpawn at hleaves
    split at hleaves
    · split at hleaves
      · rename_i hphase
        exact absurd hholds (by simp [Start.losesHold, hphase])
      · exact absurd hleaves (by simp)
    · exact absurd hleaves (by simp)
  refine ⟨placed_startStep h.placed hholds hr, fun pid hpid hne => ?_, fun sid hn => ?_⟩
  · rcases startStep_attempt hr with hsame | ⟨hphase, rfl⟩
    · exact hsettles.gone pid (h.earlier pid (hsame.launched ▸ hpid) (hsame.launcher ▸ hne))
    · -- The attempt that was torn down becomes an earlier one.
      have hgone : m.procs t.launcher = .gone := by
        -- a cooldown begins only when the process is gone
        have hplaced := h.placed
        rw [Placed, hphase] at hplaced
        exact hplaced.1
      have hold : pid ∈ t.launched := (List.mem_cons.mp hpid).resolve_left hne
      by_cases hcurrent : pid = t.launcher
      · exact hcurrent ▸ hgone
      · exact h.earlier pid hold hcurrent
  · rcases startStep_attempt hr with hsame | ⟨_, rfl⟩
    · exact h.spawns sid (hsame.launcher ▸ hspawns sid _ hn)
    · exact absurd (hnext sid _ (hspawns sid _ hn)) (Nat.lt_irrefl _)

/-- The start of the task, if the task is one, is accounted for. -/
def AccountedAt (i : TaskId) (s : State) : Prop :=
  ∀ x, s.tasks i = .start x → Accounted s.mgr x

theorem Bystands.rely (hby : Bystands s u)
    (hspawns : ∀ sid, Worker.spawn sid t.launcher ∉ s.mgr.workers)
    (hkeeps : t.Keeps s.mgr u.mgr) : Rely t s.mgr u.mgr where
  lives := fun hlives => (hby.procs _ hlives).resolve_right fun ⟨sid, hn⟩ => hspawns sid hn
  gone := hby.gone
  born := fun hborn hunborn => hborn (hby.unborn _ hunborn)
  keeps := hkeeps
  unbound := fun hunbound =>
    ⟨(hby.transports t.sid).elim id fun heq => heq.trans hunbound.1,
      (hby.observers t.sid).elim id fun heq => heq.trans hunbound.2⟩

/-- The start of another task. -/
theorem Confined.rely {x : Start} {e : StartEvent} {r : Manager × Start}
    (hr : Session.startStep m x e = some r) (hsid : t.sid ≠ x.sid)
    (hlauncher : t.launcher ≠ x.launcher) (hkeeps : t.Keeps m r.1) : Rely t m r.1 := by
  have hconfined : Confined x m r.1 := confined_startStep hr
  have hsettles : Settles (x.touched m e) (x.leavesSpawn e) none m r.1 := settles_startStep hr
  exact
    { lives := hconfined.procs _ hlauncher
      gone := hsettles.gone
      born := fun hborn hunborn => hborn (hsettles.unborn _ hunborn)
      keeps := hkeeps
      unbound := fun hunbound => ⟨(hconfined.transports _ hsid).trans hunbound.1,
        (hconfined.observers _ hsid).trans hunbound.2⟩ }

/-- A start that is called has no handles, processes or threads yet. -/
theorem AccountedAt.callStart {sid : SessionId} {resilient : Bool} {maxRestarts : ℕ}
    (h : AccountedAt i s) (hfresh : TasksFresh s) (hseparate : Separate s)
    (hid : s.freshId sid = true) :
    AccountedAt i ({ s with mgr := (startSession s.mgr sid resilient maxRestarts).1 }.addTask
      (.start (startSession s.mgr sid resilient maxRestarts).2)) := by
  intro x hx
  rcases startOf_addTask hx with ⟨_, rfl⟩ | hi
  · refine ⟨⟨?_, ?_⟩, fun pid hpid hne => ?_, fun other hn => ?_⟩
    · refine Decidable.not_not.mp fun hhandle => ?_
      obtain ⟨j, y, hj, hsid⟩ := hseparate.bound sid (Or.inl hhandle)
      exact ne_of_freshId hfresh hid hj hsid
    · refine Decidable.not_not.mp fun hhandle => ?_
      obtain ⟨j, y, hj, hsid⟩ := hseparate.bound sid (Or.inr hhandle)
      exact ne_of_freshId hfresh hid hj hsid
    · exact absurd (List.mem_singleton.mp hpid) hne
    · exact absurd (hseparate.spawns other _ hn) (Nat.lt_irrefl _)
  · exact (h x hi).rely ⟨id, fun _ => id, id, fun _ => ⟨id, id, id⟩, id⟩ fun _ => id

/-- A step by which no start goes on, and which takes nothing from the start of the task. -/
theorem AccountedAt.bystands (h : AccountedAt i s) (hby : Bystands s u)
    (hkeeps : ∀ x, s.tasks i = .start x → x.Keeps s.mgr u.mgr) : AccountedAt i u := by
  intro x hx
  have hi : s.tasks i = .start x := (hby.starts i x).mp hx
  exact (h x hi).rely (hby.rely (h x hi).spawns (hkeeps x hi)) fun other => hby.spawns other _

/-- Every step that meets the condition keeps the start of the task accounted for. -/
theorem accounted_step {e : Event} (hfresh : TasksFresh s) (hseparate : Separate s)
    (h : AccountedAt i s) (hguard : HoldsOn i s e) (hstep : machine.step s e = some u) :
    Separate u ∧ AccountedAt i u := by
  have hkeeps {x : Start} (hi : s.tasks i = .start x) (hothers : (e.startEvent i).isNone = true) :
      x.Keeps s.mgr u.mgr := (hguard x (by simp [State.startOf, hi])).2 hothers u hstep
  -- a step of anyone else takes nothing from the start
  have hbystands (hothers : (e.startEvent i).isNone = true) (hby : Bystands s u) :
      Separate u ∧ AccountedAt i u :=
    ⟨hseparate.bystands hby, h.bystands hby fun x hi => hkeeps hi hothers⟩
  have hmachine := hstep
  cases takes_of_step hstep with
  | callStart hid => exact ⟨hseparate.callStart hfresh hid, h.callStart hfresh hseparate hid⟩
  | @start j e x r hj hr =>
    refine ⟨hseparate.start hj hr, fun y hy => ?_⟩
    rcases startOf_setTask hy with ⟨rfl, rfl⟩ | ⟨hij, hi⟩
    · have hholds : x.losesHold s.mgr e = false :=
        (hguard x (by simp [State.startOf, hj])).1 e (by simp [Event.startEvent])
      exact (h x hj).startStep hseparate.spawns hholds hr
    · -- the start of another task has its own number, and touches nothing of this one
      obtain ⟨hsid, hlauncher⟩ := hseparate.apart i j y x hi hj hij
      have hrely : Rely y s.mgr r.1 := Confined.rely hr hsid hlauncher
        (hkeeps hi (by simp [Event.startEvent, Ne.symm hij]))
      refine (h y hi).rely hrely fun other hn => ?_
      exact ((confined_startStep hr).spawns other _ hn).resolve_left hlauncher
  | _ => exact hbystands rfl (bystands_step hfresh hmachine (by simp) (by simp))

/-- A start that exits by a step that meets the condition has lost hold of none of its
processes. -/
theorem leavesNoOrphan_of_accounted {e : StartEvent} {x : Start} (hfresh : TasksFresh s)
    (hseparate : Separate s) (haccounted : AccountedAt i s) (hguard : HoldsOn i s (.start i e))
    (hstep : machine.step s (.start i e) = some u) (hi : u.tasks i = .start x)
    (hexit : x.phase = .raised) : LeavesNoOrphan u.mgr x := by
  have hafter : Accounted u.mgr x :=
    (accounted_step hfresh hseparate haccounted hguard hstep).2 x hi
  cases takes_of_step hstep with
  | @start i e y r hy hr =>
    obtain rfl : r.2 = x := by simpa [State.setTask] using hi
    have hholds : y.losesHold s.mgr e = false :=
      (hguard y (by simp [State.startOf, hy])).1 e (by simp [Event.startEvent])
    have hsame : SameAttempt y r.2 := by
      refine (startStep_attempt hr).resolve_right fun hlaunch => ?_
      rw [hlaunch.2] at hexit
      exact absurd hexit (by simp [launch])
    have hkept : y.Lives r.1 → y.Listed r.1 ∨ y.Saved r.1 :=
      kept_of_exit (haccounted y hy).placed hholds hr hexit
    intro pid hpid
    by_cases hcurrent : pid = r.2.launcher
    · subst hcurrent
      refine ⟨?_, fun _ => hafter.spawns _⟩
      by_cases hlives : y.Lives r.1
      · rcases hkept hlives with hlisted | hsaved
        · exact Or.inr (Or.inl (hsame.sid ▸ hsame.launcher ▸ hlisted))
        · exact Or.inr (Or.inr (hsame.sid ▸ hsame.launcher ▸ hsaved))
      · exact Or.inl (hsame.launcher ▸ hlives)
    · have hgone : r.1.procs pid = .gone := hafter.earlier pid hpid hcurrent
      exact ⟨Or.inl (by simp [State.setTask, hgone]),
        fun hunborn => absurd (hgone.symm.trans hunborn) (by simp)⟩

/-- A table that is written wakes no start. -/
theorem bystands_save (s : State) (table : Sessions) : Bystands s (s.save table) where
  starts := fun _ _ => Iff.rfl
  procs := fun _ => Or.inl
  gone := fun _ => id
  unborn := fun _ => id
  transports := fun _ => Or.inr rfl
  observers := fun _ => Or.inr rfl
  spawns := fun _ _ => id
  nextLauncher := rfl

/-- The connection flag of a record says nothing about its process. -/
theorem keeps_updateWsConnected (t : Start) (m : Manager) (sid : SessionId) (connected : Bool)
    (io : Io) : t.Keeps m (m.updateWsConnected sid connected io).1 := by
  have hupdate : m.updateWsConnected sid connected io =
      ((m.updateWsConnected sid connected io).1, (m.updateWsConnected sid connected io).2) :=
    (Prod.eta _).symm
  rcases Manager.updateSessions_cases hupdate with hsame | ⟨reads, sessions, hsome, hsave⟩
  · rw [hsame]
    exact fun _ => ⟨id, id, id⟩
  · rw [hsave]
    refine fun _ => ⟨id, fun hsaved => ?_, id⟩
    by_cases hsid : sid = t.sid
    · subst hsid
      have hpid : ∀ r : Record, (r.withWsConnected connected).pid = r.pid := fun _ => rfl
      have hrecorded := recordedPid_rewrite hpid hsome hsaved
      exact hrecorded
    · obtain ⟨r, hr, rfl⟩ := Option.map_eq_some_iff.mp hsome
      have hlookup : (m.load reads).lookup t.sid = m.sessions.lookup t.sid := by
        cases reads with
        | true => rfl
        | false => exact absurd hr (by simp [Manager.load])
      simpa only [Start.Saved, Manager.recordedPid, Manager.save,
        AList.lookup_insert_ne (Ne.symm hsid), hlookup] using hsaved

/-- The steps of the late saves, too. -/
theorem accounted_lingering {l l' : Lingering} {e : LateEvent}
    (h : TasksFresh l.server ∧ Separate l.server ∧ AccountedAt i l.server)
    (hguard : HoldsOnLate i l e) (hstep : lingering.step l e = some l') :
    TasksFresh l'.server ∧ Separate l'.server ∧ AccountedAt i l'.server := by
  obtain ⟨hfresh, hseparate, haccounted⟩ := h
  have hwrites (table : Sessions)
      (hkeeps : ∀ x, l.server.tasks i = .start x →
        x.Keeps l.server.mgr (l.server.mgr.save table)) :
      TasksFresh (l.server.save table) ∧ Separate (l.server.save table) ∧
        AccountedAt i (l.server.save table) :=
    ⟨hfresh, hseparate.bystands (bystands_save l.server table),
      haccounted.bystands (bystands_save l.server table) hkeeps⟩
  replace hstep : lingeringStep l e = some l' := hstep
  cases e with
  | server e =>
    obtain ⟨t, ht, rfl⟩ := Option.map_eq_some_iff.mp hstep
    exact ⟨tasksFresh_step hfresh ht, accounted_step hfresh hseparate haccounted hguard ht⟩
  | updateWsConnected sid connected io =>
    cases hstep
    exact hwrites _ fun x _ =>
      updateWsConnected_save l.server.mgr sid connected io ▸ keeps_updateWsConnected x _ sid _ io
  | lands k =>
    obtain ⟨table, htable, rfl⟩ := Option.map_eq_some_iff.mp hstep
    exact hwrites table fun x hx => hguard table htable x (by simp [State.startOf, hx])
  | overtaken k =>
    obtain ⟨_, -, rfl⟩ := Option.map_eq_some_iff.mp hstep
    exact ⟨hfresh, hseparate, haccounted⟩

/-- A start that exits without a session leaves no orphan process, in runs in which no
step of it loses hold of its process and no step of anyone else takes the process away. -/
theorem leavesNoOrphan_of_reaches {sessions : Sessions} {procs : ℕ → Proc} {nextLauncher : ℕ}
    {l l' : Lingering} {e : StartEvent} {x : Start}
    (h : lingering.Reaches (HoldsOnLate i) (Lingering.init sessions procs nextLauncher) l)
    (hguard : HoldsOnLate i l (.server (.start i e)))
    (hstep : lingering.step l (.server (.start i e)) = some l')
    (hi : l'.server.tasks i = .start x) (hexit : x.phase = .raised) :
    LeavesNoOrphan l'.server.mgr x := by
  have hrun : TasksFresh l.server ∧ Separate l.server ∧ AccountedAt i l.server := by
    refine h.invariant
      (P := fun l => TasksFresh l.server ∧ Separate l.server ∧ AccountedAt i l.server)
      ⟨fun _ _ => rfl, ⟨?_, ?_, ?_, ?_⟩, ?_⟩
      fun k e k' hk hguard hstep => accounted_lingering hk hguard hstep
    · simp [Lingering.init, init]
    · simp [Lingering.init, init]
    · simp [Lingering.init, init]
    · simp [Lingering.init, init]
    · simp [AccountedAt, Lingering.init, init]
  obtain ⟨t, ht, rfl⟩ := Option.map_eq_some_iff.mp hstep
  exact leavesNoOrphan_of_accounted hrun.1 hrun.2.1 hrun.2.2 hguard ht hi hexit

/-- A resilient start bound its transport; its caller gives up while it waits for the
emulated CPU, and the handler stops the process. The save of a tool call that was cancelled in
its touch reaches the file in between. -/
def cancelledRun : List LateEvent :=
  serverRun
    [.callStart 7 true 1, .start 0 (.spawned 5000), .start 0 (.io (.done true)),
     .callTool, .tool 1 (.begins 7 .stay), .tool 1 (.checks true),
     .tool 1 (.touches (.cutSaving true false) false),
     .start 0 .connects, .start 0 (.io (.done true)), .start 0 .returns,
     .start 0 (.io (.done true)), .start 0 (.reads true)] ++
    [.lands 0] ++
    serverRun [.start 0 .cancelled, .start 0 .returns, .start 0 .returns, .start 0 .returns]

/-- The start that is cancelled at the gate leaves no orphan. -/
theorem leavesNoOrphan_cancelledRun :
    ∃ l l' x, lingering.run (Lingering.init ∅ (fun _ => .unborn) 0) cancelledRun = some l ∧
      lingering.step l (.server (.start 0 (.io (.done true)))) = some l' ∧
      l'.server.tasks 0 = .start x ∧ x.phase = .raised ∧ LeavesNoOrphan l'.server.mgr x := by
  refine ⟨_, _, _, rfl, rfl, rfl, rfl, ?_⟩
  have hrun : lingering.Reaches (HoldsOnLate 0) (Lingering.init ∅ (fun _ => .unborn) 0) _ :=
    Machine.reaches_of_runWith cancelledRun rfl
  refine leavesNoOrphan_of_reaches (e := .io (.done true)) hrun (of_decide_eq_true ?_) ?_ ?_ ?_
  · rfl
  · rfl
  · rfl
  · rfl

/-- A start is cancelled while the worker thread spawns; the handlers find no launcher, and
the thread spawns the process. -/
def spawningRun : List LateEvent :=
  serverRun [.callStart 7 false 0, .start 0 .cancelled, .worker (.spawn 7 0) true]

/-- The start exits, and its process lives without an owner. -/
theorem orphan_after_cancel :
    ∃ l l' x, lingering.Reachable (Lingering.init ∅ (fun _ => .unborn) 0) l ∧
      lingering.step l (.server (.start 0 (.io (.done true)))) = some l' ∧
      l'.server.tasks 0 = .start x ∧ x.phase = .raised ∧ ¬ LeavesNoOrphan l'.server.mgr x := by
  refine ⟨_, _, _, Machine.reachable_of_run spawningRun rfl, rfl, rfl, rfl, fun hleaves => ?_⟩
  have hkept := (hleaves 0 (by decide)).1
  exact absurd hkept (by unfold Kept; decide)

end Session
