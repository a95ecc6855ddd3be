import PpssppDfx.Session.Frame

/-!
# At most one task inside a session

`session_lock` hands out one lock object for a session as long as the table keeps the
entry. A teardown of a wedged attempt drops the entry while the record stays, so the
next caller gets another object. Tasks that use one object exclude each other; tasks
that use two do not.

## Main results

* `exclusive_of_reaches` — at most one task is inside a session's body in runs where a
  lock object is created only while nobody uses an earlier one of the session
* `two_inside` — a run in which two tasks are inside
-/

set_option autoImplicit false

namespace Session

open Semantics

/-! ## Users of locks -/

/-- The lock objects a tool holds or waits for. -/
def Tool.uses (t : Tool) : List (SessionId × ℕ) :=
  match t.phase with
  | .waiting sid (.object n) => (sid, n) :: t.held
  | _ => t.held

def Task.uses : Task → List (SessionId × ℕ)
  | .tool t => t.uses
  | _ => []

/-- The task is inside the body of `session_client_with_transport` for the session. -/
def State.inside (s : State) (i : TaskId) (sid : SessionId) : Prop :=
  ∃ n, (sid, n) ∈ (s.tasks i).held

/-- At most one task is inside each session. -/
def Exclusive (s : State) : Prop :=
  ∀ sid i j, s.inside i sid → s.inside j sid → i = j

/-- The session for which a step creates a lock object: a call touched the record and
finds no entry. -/
def createsLock (s : State) : Event → Option SessionId
  | .tool i (.touches io live) =>
    match s.tasks i with
    | .tool ⟨_, _, .touching sid .enter⟩ =>
      if (s.mgr.touchSession sid live io).2 = .saved ∧ s.mgr.sessionLocks sid = none then some sid
      else none
    | _ => none
  | _ => none

/-- A lock object of a session is created only while no task holds or waits for an
earlier one. -/
def FreshLockUnshared (s : State) (e : Event) : Prop :=
  ∀ sid ∈ createsLock s e, ∀ i < s.nextTask, ∀ u ∈ (s.tasks i).uses, u.1 ≠ sid

instance (s : State) (e : Event) : Decidable (FreshLockUnshared s e) :=
  inferInstanceAs (Decidable (∀ sid ∈ createsLock s e, ∀ i < s.nextTask, _))

/-! ## Invariants -/

/-- Lock objects belong to those who hold them, as often as they hold them. -/
structure OwnInv (s : State) : Prop where
  owned : ∀ i, ∀ u ∈ (s.tasks i).held, (s.mgr.locks u.2).owner = some i
  depth : ∀ n i, (s.mgr.locks n).owner = some i →
    (s.mgr.locks n).depth = ((s.tasks i).held.map Prod.snd).count n
  unused : ∀ n, s.mgr.nextLock ≤ n → s.mgr.locks n = .free

/-- The lock objects in use for a session are one, and the one in the table if the table
has one. -/
structure UseInv (s : State) : Prop where
  numbered : ∀ i, ∀ u ∈ (s.tasks i).uses, u.2 < s.mgr.nextLock
  table : ∀ sid n, s.mgr.sessionLocks sid = some (.object n) → n < s.mgr.nextLock
  agree : ∀ i, ∀ u ∈ (s.tasks i).uses, ∀ n,
    s.mgr.sessionLocks u.1 = some (.object n) → u.2 = n
  same : ∀ i j, ∀ u ∈ (s.tasks i).uses, ∀ v ∈ (s.tasks j).uses, u.1 = v.1 → u.2 = v.2

/-- What holds between two steps. -/
structure LockInv (s : State) : Prop where
  fresh : TasksFresh s
  own : OwnInv s
  use : UseInv s

theorem Task.held_subset_uses (task : Task) : task.held ⊆ task.uses := by
  cases task with
  | tool t =>
    show t.held ⊆ t.uses
    unfold Tool.uses
    split
    · exact List.subset_cons_self _ _
    · exact List.Subset.refl _
  | _ => exact List.nil_subset _

/-- One object for a session, and one owner for an object. -/
theorem LockInv.exclusive {s : State} (h : LockInv s) : Exclusive s := by
  rintro sid i j ⟨n, hn⟩ ⟨n', hn'⟩
  obtain rfl : n = n' := h.use.same i j _ (Task.held_subset_uses _ hn) _
    (Task.held_subset_uses _ hn') rfl
  exact Option.some.inj ((h.own.owned i _ hn).symm.trans (h.own.owned j _ hn'))

variable {s t : State} {m m' : Manager}

/-! ## What keeps the invariant -/

/-- Uses that a step may leave: earlier ones, and of what the table has. -/
theorem UseInv.step (h : UseInv s)
    (htable : ∀ sid n, t.mgr.sessionLocks sid = some (.object n) →
      s.mgr.sessionLocks sid = some (.object n))
    (hnext : t.mgr.nextLock = s.mgr.nextLock)
    (huses : ∀ i, ∀ u ∈ (t.tasks i).uses,
      u ∈ (s.tasks i).uses ∨ s.mgr.sessionLocks u.1 = some (.object u.2)) : UseInv t := by
  constructor
  · intro i u hu
    rw [hnext]
    rcases huses i u hu with hold | hentry
    · exact h.numbered i u hold
    · exact h.table _ _ hentry
  · intro sid n hn
    rw [hnext]
    exact h.table sid n (htable sid n hn)
  · intro i u hu n hn
    have hn := htable _ _ hn
    rcases huses i u hu with hold | hentry
    · exact h.agree i u hold n hn
    · simpa [hentry] using hn
  · intro i j u hu v hv hsid
    rcases huses i u hu with hu | hu <;> rcases huses j v hv with hv | hv
    · exact h.same i j u hu v hv hsid
    · exact h.agree i u hu v.2 (hsid ▸ hv)
    · exact (h.agree j v hv u.2 (hsid ▸ hu)).symm
    · simpa [hsid, hv] using hu.symm

/-- Steps that change no owner and no holder. -/
theorem OwnInv.step (h : OwnInv s)
    (hlocks : ∀ n, (t.mgr.locks n).owner = (s.mgr.locks n).owner ∧
      (t.mgr.locks n).depth = (s.mgr.locks n).depth)
    (hunused : ∀ n, t.mgr.nextLock ≤ n → t.mgr.locks n = .free)
    (hheld : ∀ i, (t.tasks i).held = (s.tasks i).held) : OwnInv t := by
  constructor
  · intro i u hu
    rw [(hlocks u.2).1]
    exact h.owned i u (hheld i ▸ hu)
  · intro n i howner
    rw [(hlocks n).1] at howner
    rw [(hlocks n).2, hheld]
    exact h.depth n i howner
  · exact hunused

/-- A new task uses no lock. -/
theorem LockInv.addTask (h : LockInv s) {task : Task} (huses : task.uses = []) :
    LockInv (s.addTask task) := by
  have hheld : task.held = [] := List.subset_nil.mp (huses ▸ task.held_subset_uses)
  have hnone : s.tasks s.nextTask = .absent := h.fresh _ (Nat.le_refl _)
  refine ⟨h.fresh.addTask task, h.own.step (fun _ => ⟨rfl, rfl⟩) h.own.unused fun i => ?_,
    h.use.step (fun _ _ => id) rfl fun i u hu => ?_⟩
  · by_cases hi : i = s.nextTask
    · subst hi
      simp only [State.addTask, Function.update_self, hheld, hnone]
      rfl
    · simp [State.addTask, Function.update_of_ne hi]
  · by_cases hi : i = s.nextTask
    · subst hi
      simp [State.addTask, huses] at hu
    · exact Or.inl (by simpa [State.addTask, Function.update_of_ne hi] using hu)

/-- Changes outside the locks and the tasks. -/
theorem LockInv.setMgr (h : LockInv s) (hkeep : KeepsLocks s.mgr m) :
    LockInv { s with mgr := m } := by
  refine ⟨h.fresh, h.own.step (fun n => by simp [hkeep.locks]) (fun n hn => ?_) fun _ => rfl,
    h.use.step hkeep.table hkeep.nextLock fun _ _ => Or.inl⟩
  rw [hkeep.locks]
  exact h.own.unused n (hkeep.nextLock ▸ hn)

/-- A task moves on without taking or releasing a lock. -/
theorem LockInv.setTask (h : LockInv s) (hkeep : KeepsLocks s.mgr m) {i : TaskId}
    (hi : s.tasks i ≠ .absent) {task : Task} (hheld : task.held = (s.tasks i).held)
    (huses : ∀ u ∈ task.uses, u ∈ (s.tasks i).uses) : LockInv (s.setTask m i task) := by
  have hmgr := h.setMgr hkeep
  refine ⟨h.fresh.setTask hi m task,
    hmgr.own.step (fun _ => ⟨rfl, rfl⟩) hmgr.own.unused fun j => ?_,
    hmgr.use.step (fun _ _ => id) rfl fun j u hu => Or.inl ?_⟩
  · by_cases hj : j = i
    · subst hj
      simpa [State.setTask] using hheld
    · simp [State.setTask, Function.update_of_ne hj]
  · by_cases hj : j = i
    · subst hj
      exact huses u (by simpa [State.setTask] using hu)
    · simpa [State.setTask, Function.update_of_ne hj] using hu

/-- A tool that holds the same and stands or does not stand in the line of a lock. -/
theorem LockInv.queue (h : LockInv s) {i : TaskId} {x y : Tool} (hi : s.tasks i = .tool x)
    (hheld : y.held = x.held) {n : ℕ} {l : SessionLock} (hn : n < s.mgr.nextLock)
    (howner : l.owner = (s.mgr.locks n).owner) (hdepth : l.depth = (s.mgr.locks n).depth)
    (huses : ∀ u ∈ y.uses, u ∈ x.uses ∨ s.mgr.sessionLocks u.1 = some (.object u.2)) :
    LockInv (s.setTask (s.mgr.setLock n l) i (.tool y)) := by
  refine ⟨h.fresh.setTask (by simp [hi]) _ _, h.own.step (fun k => ?_) (fun k hk => ?_) fun j => ?_,
    h.use.step (fun _ _ => id) rfl fun j u hu => ?_⟩
  · simp only [State.setTask, Manager.setLock, Function.update_apply]
    split
    · subst k
      exact ⟨howner, hdepth⟩
    · exact ⟨rfl, rfl⟩
  · have hlt : s.mgr.nextLock ≤ k := hk
    simp only [State.setTask, Manager.setLock, Function.update_of_ne (by omega : k ≠ n)]
    exact h.own.unused k hlt
  · by_cases hj : j = i
    · subst hj
      simpa [State.setTask, hi, Task.held] using hheld
    · simp [State.setTask, Function.update_of_ne hj]
  · by_cases hj : j = i
    · subst hj
      simpa [hi, Task.uses] using huses u (by simpa [State.setTask, Task.uses] using hu)
    · exact Or.inl (by simpa [State.setTask, Function.update_of_ne hj] using hu)

/-- A tool takes a lock that is its own or free, and that it waited for or found in the
table. -/
theorem LockInv.take (h : LockInv s) {i : TaskId} {x : Tool} (hi : s.tasks i = .tool x)
    {sid : SessionId} {n : ℕ} {l : SessionLock}
    (hknown : (sid, n) ∈ x.uses ∨ s.mgr.sessionLocks sid = some (.object n))
    (howner : l.owner = some i)
    (hold : (s.mgr.locks n).owner = some i ∧ l.depth = (s.mgr.locks n).depth + 1 ∨
      (s.mgr.locks n).owner = none ∧ l.depth = 1) :
    LockInv (s.setTask (s.mgr.setLock n l) i
      (.tool { x with held := (sid, n) :: x.held, phase := .body })) := by
  have hlt : n < s.mgr.nextLock := by
    rcases hknown with hknown | hknown
    · exact h.use.numbered i (sid, n) (by simpa [hi, Task.uses] using hknown)
    · exact h.use.table sid n hknown
  have hown (u : SessionId × ℕ) (hu : u ∈ x.held) : (s.mgr.locks u.2).owner = some i :=
    h.own.owned i u (by simpa [hi, Task.held] using hu)
  -- Nobody else holds the lock.
  have hother {j : TaskId} (hj : j ≠ i) {u : SessionId × ℕ} (hu : u ∈ (s.tasks j).held) :
      u.2 ≠ n := by
    rintro rfl
    have howned := h.own.owned j u hu
    rcases hold with ⟨hold, _⟩ | ⟨hold, _⟩
    · exact hj (Option.some.inj (howned.symm.trans hold))
    · exact absurd (howned.symm.trans hold) (by simp)
  refine ⟨h.fresh.setTask (by simp [hi]) _ _, ⟨fun j u hu => ?_, fun k j hk => ?_, fun k hk => ?_⟩,
    h.use.step (fun _ _ => id) rfl fun j u hu => ?_⟩
  · by_cases hj : j = i
    · subst hj
      have hu : u = (sid, n) ∨ u ∈ x.held := by simpa [State.setTask, Task.held] using hu
      simp only [State.setTask, Manager.setLock, Function.update_apply]
      split
      · exact howner
      · rename_i hne
        rcases hu with rfl | hu
        · exact absurd rfl hne
        · exact hown u hu
    · have hu : u ∈ (s.tasks j).held := by
        simpa [State.setTask, Function.update_of_ne hj] using hu
      simp only [State.setTask, Manager.setLock, Function.update_of_ne (hother hj hu)]
      exact h.own.owned j u hu
  · simp only [State.setTask, Manager.setLock, Function.update_apply] at hk ⊢
    by_cases hkn : k = n
    · subst hkn
      simp only [if_true] at hk ⊢
      obtain rfl : i = j := Option.some.inj (howner.symm.trans hk)
      simp only [if_true, Task.held, List.map_cons, List.count_cons_self]
      rcases hold with ⟨hold, hdepth⟩ | ⟨hold, hdepth⟩
      · rw [hdepth, h.own.depth k i hold, hi, Task.held]
      · have hzero : (x.held.map Prod.snd).count k = 0 := by
          refine List.count_eq_zero.mpr fun hmem => ?_
          obtain ⟨u, hu, rfl⟩ := List.mem_map.mp hmem
          exact absurd ((hown u hu).symm.trans hold) (by simp)
        rw [hdepth, hzero]
    · simp only [hkn, if_false] at hk ⊢
      rw [h.own.depth k j hk]
      split
      · subst j
        simp [hi, Task.held, Ne.symm hkn]
      · rfl
  · have hle : s.mgr.nextLock ≤ k := hk
    simp only [State.setTask, Manager.setLock, Function.update_of_ne (by omega : k ≠ n)]
    exact h.own.unused k hle
  · by_cases hj : j = i
    · subst hj
      have hu : u = (sid, n) ∨ u ∈ x.held := by
        simpa [State.setTask, Task.uses, Tool.uses] using hu
      rcases hu with rfl | hu
      · simpa [hi, Task.uses] using hknown
      · refine Or.inl (Task.held_subset_uses _ ?_)
        simpa [hi, Task.held] using hu
    · exact Or.inl (by simpa [State.setTask, Function.update_of_ne hj] using hu)

/-- What a task that holds a lock finds when it releases it. -/
theorem LockInv.release_eq (h : LockInv s) {i : TaskId} {x : Tool} (hi : s.tasks i = .tool x)
    {sid : SessionId} {n : ℕ} {rest : List (SessionId × ℕ)} (hheld : x.held = (sid, n) :: rest) :
    (s.mgr.locks n).owner = some i ∧
      (s.mgr.locks n).depth = (rest.map Prod.snd).count n + 1 := by
  have howner : (s.mgr.locks n).owner = some i :=
    h.own.owned i (sid, n) (by simp [hi, Task.held, hheld])
  refine ⟨howner, ?_⟩
  rw [h.own.depth n i howner, hi]
  simp [Task.held, hheld]

/-- A tool leaves the innermost body it is inside of. -/
theorem LockInv.release (h : LockInv s) {i : TaskId} {x : Tool} (hi : s.tasks i = .tool x)
    {sid : SessionId} {n : ℕ} {rest : List (SessionId × ℕ)} (hheld : x.held = (sid, n) :: rest)
    (hphase : x.phase = .body) {l : SessionLock} (hl : (s.mgr.locks n).release i = some l) :
    LockInv (s.setTask (s.mgr.setLock n l) i (.tool { x with held := rest })) := by
  obtain ⟨howner, hdepth⟩ := h.release_eq hi hheld
  have hold (u : SessionId × ℕ) (hu : u ∈ x.held) : (s.mgr.locks u.2).owner = some i :=
    h.own.owned i u (by simpa [hi, Task.held] using hu)
  have hother {j : TaskId} (hj : j ≠ i) {u : SessionId × ℕ} (hu : u ∈ (s.tasks j).held) :
      u.2 ≠ n := by
    rintro rfl
    exact hj (Option.some.inj ((h.own.owned j u hu).symm.trans howner))
  have hlt : n < s.mgr.nextLock := by
    refine h.use.numbered i (sid, n) (Task.held_subset_uses _ ?_)
    simp [hi, Task.held, hheld]
  -- The lock stays the task's while the task holds it elsewhere.
  have hcases : (rest.map Prod.snd).count n = 0 ∧ l.owner = none ∨
      l.owner = some i ∧ l.depth = (rest.map Prod.snd).count n := by
    unfold SessionLock.release at hl
    split at hl
    · exact absurd hl (by simp)
    · split at hl
      · obtain rfl := Option.some.inj hl
        exact Or.inl ⟨by omega, rfl⟩
      · obtain rfl := Option.some.inj hl
        exact Or.inr ⟨howner, by simp [hdepth]⟩
  refine ⟨h.fresh.setTask (by simp [hi]) _ _, ⟨fun j u hu => ?_, fun k j hk => ?_, fun k hk => ?_⟩,
    h.use.step (fun _ _ => id) rfl fun j u hu => Or.inl ?_⟩
  · by_cases hj : j = i
    · subst hj
      have hu : u ∈ rest := by simpa [State.setTask, Task.held] using hu
      simp only [State.setTask, Manager.setLock, Function.update_apply]
      split
      · rename_i hun
        rcases hcases with ⟨hzero, _⟩ | ⟨hkept, _⟩
        · have hmem : n ∈ rest.map Prod.snd := List.mem_map.mpr ⟨u, hu, hun⟩
          exact absurd hmem (List.count_eq_zero.mp hzero)
        · exact hkept
      · exact hold u (by simp [hheld, hu])
    · have hu : u ∈ (s.tasks j).held := by
        simpa [State.setTask, Function.update_of_ne hj] using hu
      simp only [State.setTask, Manager.setLock, Function.update_of_ne (hother hj hu)]
      exact h.own.owned j u hu
  · simp only [State.setTask, Manager.setLock, Function.update_apply] at hk ⊢
    by_cases hkn : k = n
    · subst hkn
      simp only [if_true] at hk ⊢
      rcases hcases with ⟨_, hnone⟩ | ⟨hkept, hcount⟩
      · exact absurd (hnone.symm.trans hk) (by simp)
      · obtain rfl : i = j := Option.some.inj (hkept.symm.trans hk)
        simpa [Task.held] using hcount
    · simp only [hkn, if_false] at hk ⊢
      rw [h.own.depth k j hk]
      split
      · subst j
        simp [hi, Task.held, hheld, Ne.symm hkn]
      · rfl
  · have hle : s.mgr.nextLock ≤ k := hk
    simp only [State.setTask, Manager.setLock, Function.update_of_ne (by omega : k ≠ n)]
    exact h.own.unused k hle
  · by_cases hj : j = i
    · subst hj
      have hu : u ∈ rest := by simpa [State.setTask, Task.uses, Tool.uses, hphase] using hu
      refine Task.held_subset_uses _ ?_
      simp [hi, Task.held, hheld, hu]
    · simpa [State.setTask, Function.update_of_ne hj] using hu

/-- A lock object is created while nobody uses one of the session. -/
theorem LockInv.sessionLock (h : LockInv s) (sid : SessionId)
    (hnone : s.mgr.sessionLocks sid = none → ∀ i, ∀ u ∈ (s.tasks i).uses, u.1 ≠ sid) :
    LockInv { s with mgr := (s.mgr.sessionLock sid).1 } := by
  unfold Manager.sessionLock
  split
  · exact h
  · rename_i hentry
    have hunused := hnone hentry
    have hentries {other : SessionId} {n : ℕ}
        (hn : Function.update s.mgr.sessionLocks sid (some (.object s.mgr.nextLock)) other =
          some (.object n)) : other = sid ∧ n = s.mgr.nextLock ∨
            s.mgr.sessionLocks other = some (.object n) := by
      rw [Function.update_apply] at hn
      split at hn
      · exact Or.inl ⟨‹_›, by simpa [eq_comm] using hn⟩
      · exact Or.inr hn
    refine ⟨h.fresh, h.own.step (fun _ => ⟨rfl, rfl⟩) (fun n hn => ?_) (fun _ => rfl),
      ⟨fun i u hu => ?_, fun other n hn => ?_, fun i u hu n hn => ?_, h.use.same⟩⟩
    · exact h.own.unused n (Nat.le_of_succ_le hn)
    · exact Nat.lt_succ_of_lt (h.use.numbered i u hu)
    · rcases hentries hn with ⟨_, rfl⟩ | hn
      · exact Nat.lt_succ_self _
      · exact Nat.lt_succ_of_lt (h.use.table other n hn)
    · rcases hentries hn with ⟨hsid, _⟩ | hn
      · exact absurd hsid (hunused i u hu)
      · exact h.use.agree i u hu n hn

/-- The entry that `session_lock` returns is in the table. -/
theorem sessionLock_entry (m : Manager) (sid : SessionId) :
    (m.sessionLock sid).1.sessionLocks sid = some (m.sessionLock sid).2 := by
  unfold Manager.sessionLock
  split
  · assumption
  · simp

/-- A tool takes the lock of the table or stands in line. -/
theorem LockInv.enterLock (h : LockInv s) {i : TaskId} {x : Tool} (hi : s.tasks i = .tool x)
    {sid : SessionId} {ref : LockRef} (hentry : s.mgr.sessionLocks sid = some ref) :
    LockInv (s.setTask (enterLock s.mgr i x sid ref).1 i
      (.tool (enterLock s.mgr i x sid ref).2)) := by
  cases ref with
  | closing =>
    refine h.setTask (.refl _) (by simp [hi]) (by simp [hi, Task.held, Session.enterLock]) ?_
    intro u hu
    refine Task.held_subset_uses _ ?_
    simpa [hi, Task.held, Task.uses, Tool.uses, Session.enterLock] using hu
  | object n =>
    unfold Session.enterLock
    dsimp only
    split
    · rename_i l hl
      unfold SessionLock.acquire at hl
      split at hl
      · rename_i howner
        obtain rfl := Option.some.inj hl
        exact h.take hi (Or.inr hentry) howner (Or.inl ⟨howner, rfl⟩)
      · split at hl
        · rename_i hfree
          obtain rfl := Option.some.inj hl
          exact h.take hi (Or.inr hentry) rfl (Or.inr ⟨hfree.1, rfl⟩)
        · exact absurd hl (by simp)
    · refine h.queue (y := { x with phase := .waiting sid (.object n) })
        (l := (s.mgr.locks n).enqueue i) hi rfl (h.use.table sid n hentry) rfl rfl fun u hu => ?_
      have hu : u = (sid, n) ∨ u ∈ x.held := by simpa [Tool.uses] using hu
      rcases hu with rfl | hu
      · exact Or.inr hentry
      · refine Or.inl ?_
        have hmem : u ∈ (Task.tool x).held := hu
        exact Task.held_subset_uses _ hmem

/-! ## Steps and runs -/

theorem keepsLocks_touchSession {sid : SessionId} {live : Bool} {io : Io} {result : SectionResult}
    (h : m.touchSession sid live io = (m', result)) : KeepsLocks m m' := by
  rcases Manager.updateSessions_cases h with rfl | ⟨_, _, _, rfl⟩
  · exact .refl m'
  · exact .of_eq rfl rfl rfl

theorem keepsLocks_gcStep {g : Gc} {o : Outcome} {r : Manager × Gc}
    (h : gcStep m g o = some r) : KeepsLocks m r.1 := by
  have hcases : (Settles none none none m r.1 ∧ _) ∨ _ := gcStep_cases h
  rcases hcases with ⟨hsettles, _⟩ | ⟨_, _, _, _, rfl⟩ | ⟨_, _, rfl⟩
  · exact hsettles.toKeepsLocks
  · exact .refl m
  · exact .of_eq rfl rfl rfl

/-- A tool in its own code, or awaiting a record, uses what it holds. -/
theorem LockInv.moveTool (h : LockInv s) {i : TaskId} {x : Tool} (hi : s.tasks i = .tool x)
    {m : Manager} (hkeep : KeepsLocks s.mgr m) {p : ToolPhase}
    (hp : ∀ sid n, p ≠ .waiting sid (.object n)) :
    LockInv (s.setTask m i (.tool { x with phase := p })) := by
  refine h.setTask hkeep (by simp [hi]) (by simp [hi, Task.held]) fun u hu => ?_
  refine Task.held_subset_uses _ ?_
  have huses : (Task.tool { x with phase := p }).uses = x.held := by
    show Tool.uses _ = _
    unfold Tool.uses
    split
    · rename_i sid n hphase
      exact absurd hphase (hp sid n)
    · rfl
  rw [huses] at hu
  simpa [hi, Task.held] using hu

/-- Whoever leaves a body holds its lock. -/
theorem LockInv.release_ne_none (h : LockInv s) {i : TaskId} {x : Tool}
    (hi : s.tasks i = .tool x) {sid : SessionId} {n : ℕ} {rest : List (SessionId × ℕ)}
    (hheld : x.held = (sid, n) :: rest) : (s.mgr.locks n).release i ≠ none := by
  obtain ⟨howner, hdepth⟩ := h.release_eq hi hheld
  unfold SessionLock.release
  rw [if_neg (by simp [howner, hdepth])]
  split <;> simp

/-- A tool has touched its session and asks for the lock, which may be created for it. -/
theorem LockInv.touchedEnter (h : LockInv s) {i : TaskId} {x : Tool} (hi : s.tasks i = .tool x)
    {sid : SessionId} (hphase : x.phase = .touching sid .enter) {io : Io} {live : Bool}
    (hshared : FreshLockUnshared s (.tool i (.touches io live))) {m : Manager}
    (htouch : s.mgr.touchSession sid live io = (m, .saved)) :
    LockInv { s with mgr := (m.sessionLock sid).1 } := by
  refine (h.setMgr (keepsLocks_touchSession htouch)).sessionLock sid fun hnone j u hu => ?_
  have hu : u ∈ (s.tasks j).uses := hu
  by_cases hj : j < s.nextTask
  · have htable : s.mgr.sessionLocks sid = none := by
      rcases Manager.updateSessions_cases htouch with rfl | ⟨_, _, _, rfl⟩ <;> exact hnone
    refine hshared sid ?_ j hj u hu
    obtain ⟨job, held, phase⟩ := x
    obtain rfl : phase = .touching sid .enter := hphase
    simp [createsLock, hi, htouch, htable]
  · -- no such task has been created
    rw [h.fresh j (Nat.le_of_not_lt hj)] at hu
    exact absurd hu List.not_mem_nil

/-- One step of a tool. -/
theorem LockInv.toolStep (h : LockInv s) {i : TaskId} {x : Tool} (hi : s.tasks i = .tool x)
    {e : ToolEvent} (hshared : FreshLockUnshared s (.tool i e))
    {r : Manager × Tool × Option SessionId} (hr : toolStep s.mgr i s.busy x e = some r) :
    LockInv (s.setTask r.1 i (.tool r.2.1)) := by
  cases takes_of_toolStep hr with
  -- Leaving the innermost body.
  | leaves hheld hrelease hphase => exact h.release hi hheld hphase hrelease
  | leavesUnheld hheld hrelease => exact absurd hrelease (h.release_ne_none hi hheld)
  -- The touch, and after it the lock.
  | @touches sid after io live m₁ htouch hphase =>
    cases after with
    | submit => exact h.moveTool hi (keepsLocks_touchSession htouch) (by simp)
    | stay => exact h.moveTool hi (keepsLocks_touchSession htouch) (by simp)
    | enter =>
      have hmgr := h.touchedEnter hi hphase hshared htouch
      exact hmgr.enterLock hi (sessionLock_entry m₁ sid)
  | touchFails htouch => exact h.moveTool hi (keepsLocks_touchSession htouch) (by simp)
  | granted hgrant hphase =>
    unfold SessionLock.grant at hgrant
    split at hgrant
    · rename_i hfree
      obtain rfl := Option.some.inj hgrant
      exact h.take hi (Or.inl (by simp [Tool.uses, hphase])) rfl (Or.inr ⟨hfree.1, rfl⟩)
    · exact absurd hgrant (by simp)
  -- The wait is given up.
  | @withdraws sid n hphase =>
    have hmem : (sid, n) ∈ (s.tasks i).uses := by simp [hi, Task.uses, Tool.uses, hphase]
    refine h.queue (y := { x with phase := .body }) (l := (s.mgr.locks n).withdraw i) hi rfl
      (h.use.numbered i (sid, n) hmem) rfl rfl fun u hu => Or.inl ?_
    have hheld : u ∈ (Task.tool x).held := by simpa [Tool.uses, Task.held] using hu
    exact Task.held_subset_uses _ hheld
  | _ => exact h.moveTool hi (.refl _) (by simp)

/-- A stop, a collection or a start moves on. -/
theorem LockInv.moves (h : LockInv s) {i : TaskId} {task : Task} (hkeep : KeepsLocks s.mgr m)
    (hi : s.tasks i ≠ .absent) (hheld : (s.tasks i).held = []) (huses : task.uses = []) :
    LockInv (s.setTask m i task) := by
  refine h.setTask hkeep hi ?_ (by simp [huses])
  rw [hheld]
  exact List.subset_nil.mp (huses ▸ task.held_subset_uses)

/-- Every step that creates no lock in use keeps the invariant. -/
theorem lockInv_step {e : Event} (h : LockInv s) (hshared : FreshLockUnshared s e)
    (hstep : machine.step s e = some t) : LockInv t := by
  cases takes_of_step hstep with
  | callTool => exact h.addTask rfl
  | callStop sid => exact h.addTask rfl
  | callGc => exact h.addTask rfl
  | @callStart sid resilient maxRestarts _ =>
    have hmgr : LockInv { s with mgr := (startSession s.mgr sid resilient maxRestarts).1 } :=
      h.setMgr (.of_eq rfl rfl rfl)
    exact hmgr.addTask rfl
  | tool hi hr => exact h.toolStep hi hshared hr
  | submits hi hr => exact (h.toolStep hi hshared hr).addTask rfl
  | @stop i o x r hi hr =>
    have hsettles : Settles none none (x.returning o) s.mgr r.1 := settles_stopStep hr
    exact h.moves hsettles.toKeepsLocks (by simp [hi]) (by simp [hi, Task.held]) rfl
  | gc hi hr => exact h.moves (keepsLocks_gcStep hr) (by simp [hi]) (by simp [hi, Task.held]) rfl
  | @start i e x r hi hr =>
    have hsettles : Settles (x.touched s.mgr e) (x.leavesSpawn e) none s.mgr r.1 :=
      settles_startStep hr
    exact h.moves hsettles.toKeepsLocks (by simp [hi]) (by simp [hi, Task.held]) rfl
  | @worker w _ ok =>
    have hsettles : Settles none none none s.mgr (s.mgr.endWorker w ok) := settles_endWorker _ w ok
    exact h.setMgr hsettles.toKeepsLocks
  | dies pid =>
    have hsettles : Settles none none none s.mgr (s.mgr.kill pid) := settles_kill _ pid
    exact h.setMgr hsettles.toKeepsLocks
  | passes seconds => exact h.setMgr (.of_eq rfl rfl rfl)

/-- A table that is written changes no lock. -/
theorem LockInv.save (h : LockInv s) (sessions : Sessions) : LockInv (s.save sessions) :=
  h.setMgr (.of_eq rfl rfl rfl)

/-- In runs that create a session's lock object only while nobody uses an earlier one, at
most one task is inside each session. -/
theorem exclusive_of_reaches {sessions : Sessions} {procs : ℕ → Proc} {nextLauncher : ℕ}
    {l : Lingering} (h : lingering.Reaches (Lingering.When FreshLockUnshared)
      (Lingering.init sessions procs nextLauncher) l) : Exclusive l.server := by
  have hinit : LockInv (init sessions procs nextLauncher) := by
    refine ⟨fun _ _ => rfl, ⟨?_, ?_, fun _ _ => rfl⟩, ⟨?_, ?_, ?_, ?_⟩⟩ <;>
      simp [init, Task.held, Task.uses, SessionLock.free]
  have hrun : LockInv l.server := by
    refine h.invariant (P := fun l => LockInv l.server) hinit fun k e k' hk hshared hstep => ?_
    rcases lingering_cases hstep with ⟨e', rfl, hserver, -⟩ | ⟨table, hsave⟩
    · exact lockInv_step hk hshared hserver
    · rw [hsave]
      exact hk.save table
  exact hrun.exclusive

/-- A session is started and persisted, and a tool call opens a client for it. -/
def callRun : List Event :=
  [.callStart 7 true 1, .start 0 (.spawned 5000), .start 0 (.io (.done true)),
   .callTool, .tool 1 (.begins 7 .enter), .tool 1 (.checks true),
   .tool 1 (.touches (.done true) false)]

/-- A second tool call is cancelled in its touch, whose thread goes on. A third one stands in line
until the first leaves, and the late save reaches the file in between. -/
def queueRun : List LateEvent :=
  serverRun (callRun ++
    [.callTool, .tool 2 (.begins 7 .enter), .tool 2 (.checks true),
     .tool 2 (.touches (.cutSaving true false) false),
     .callTool, .tool 3 (.begins 7 .enter), .tool 3 (.checks true),
     .tool 3 (.touches (.done true) false), .tool 1 .leaves]) ++
    [.lands 0, .server (.tool 3 .granted)]

/-- One of the calls is inside. -/
theorem exclusive_queueRun :
    ∃ l, lingering.run (Lingering.init ∅ (fun _ => .unborn) 0) queueRun = some l ∧
      l.server.inside 3 7 ∧ Exclusive l.server := by
  refine ⟨_, rfl, ⟨0, List.mem_cons_self⟩, ?_⟩
  have hrun : lingering.Reaches (Lingering.When FreshLockUnshared)
      (Lingering.init ∅ (fun _ => .unborn) 0) _ := Machine.reaches_of_runWith queueRun rfl
  exact exclusive_of_reaches hrun

/-- The start finds no WebSocket, judges the attempt wedged and drops the lock's entry
while the first call is inside. The second call gets a new lock. -/
def wedgeRun : List LateEvent :=
  serverRun (callRun ++
    [.start 0 .returns, .start 0 .returns,
     .callTool, .tool 2 (.begins 7 .enter), .tool 2 (.checks true),
     .tool 2 (.touches (.done true) false)])

/-- Both calls are inside the session. -/
theorem two_inside :
    ∃ l, lingering.Reachable (Lingering.init ∅ (fun _ => .unborn) 0) l ∧ ¬ Exclusive l.server := by
  refine ⟨_, Machine.reachable_of_run wedgeRun rfl, fun hexclusive => ?_⟩
  have hsame := hexclusive 7 1 2 ⟨0, List.mem_cons_self⟩ ⟨1, List.mem_cons_self⟩
  exact absurd hsame (by decide)

end Session
