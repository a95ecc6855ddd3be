import PpssppDfx.Session.Estate

/-!
# What reclaimed sessions leave behind

A stop takes its session out of the tables at once and removes the record at the end; a
sentinel keeps the entry in the table of locks meanwhile. A collection takes a session out of
the tables one by one, and never out of the table of locks. In between, the start of the
session and tool calls go on.

## Main definitions

* `Session.Forgotten` — a session is in no table and has no record
* `Session.Tidy` — a step puts no session back that is being reclaimed

## Main results

* `forgotten_of_reaches` — reclaimed sessions leave nothing behind in runs of such steps
* `remnant_after_gc` — a run in which a collection leaves the sentinel of a stop that failed
-/

set_option autoImplicit false

namespace Session

open Semantics Function

/-- The session is in no table of the server, in no side table, and has no record. -/
structure Forgotten (l : Estate) (sid : SessionId) : Prop where
  launcher : l.server.mgr.launchers sid = none
  transport : l.server.mgr.transports sid = none
  observer : l.server.mgr.observers sid = none
  lock : l.server.mgr.sessionLocks sid = none
  side : ¬ l.side.Occurs sid
  record : l.server.mgr.sessions.lookup sid = none

/-! ## The condition -/

/-- The stop has taken its session out of the tables and not returned. -/
def Stop.emptied (x : Stop) : Bool :=
  match x.phase with
  | .closing _ | .killing _ | .removing => true
  | _ => false

/-- The collection has not ended. -/
def Gc.underWay (g : Gc) : Bool :=
  match g.phase with
  | .ended => false
  | _ => true

/-- A stop of the session has taken it out of the tables. -/
def Task.stopping (sid : SessionId) : Task → Bool
  | .stop x => decide (x.sid = sid) && x.emptied
  | _ => false

/-- A collection has taken the session out of the tables. -/
def Task.collecting (sid : SessionId) : Task → Bool
  | .gc g => g.underWay && decide (sid ∈ g.reclaimed)
  | _ => false

def State.stopping (s : State) (sid : SessionId) : Bool :=
  (List.range s.nextTask).any fun i => (s.tasks i).stopping sid

def State.collecting (s : State) (sid : SessionId) : Bool :=
  (List.range s.nextTask).any fun i => (s.tasks i).collecting sid

/-- The session was taken out of the tables, and possibly reclaimed since. -/
def Estate.leaving (l : Estate) (sid : SessionId) : Bool :=
  l.server.stopping sid || l.server.collecting sid || decide (sid ∈ l.reclaimed)

/-- The session has no lock, and its handles are those that the scan saw, or gone. -/
def Manager.Unchanged (m : Manager) (entry : GcEntry) : Prop :=
  m.sessionLocks entry.sid = none ∧
    (m.launchers entry.sid = none ∨ m.launchers entry.sid = entry.launcher) ∧
    (m.transports entry.sid = none ∨ m.transports entry.sid = entry.transport) ∧
    (m.observers entry.sid = none ∨ m.observers entry.sid = entry.observer)

instance (m : Manager) (entry : GcEntry) : Decidable (m.Unchanged entry) :=
  inferInstanceAs (Decidable (_ ∧ _ ∧ _ ∧ _))

/-- No step puts a session back that was taken out of the tables, and a collection takes out
only sessions that have no lock and whose handles did not change. -/
def Tidy (l : Estate) : EstateEvent → Prop
  | .server e =>
    (∀ sid ∈ registers l.server e, l.leaving sid = false) ∧
      (∀ sid ∈ closes l.server e, l.server.collecting sid = false) ∧
      (∀ sid ∈ saves l.server e, sid ∉ l.reclaimed) ∧
      ∀ entry ∈ collects l.server e, l.server.mgr.Unchanged entry
  | .side w => ∀ sid ∈ w.adds, l.leaving sid = false
  | .lands k => ∀ sessions ∈ l.pending[k]?, ∀ sid ∈ l.reclaimed, sessions.lookup sid = none

/-! ## Invariant -/

/-- The session is in no table of handles and in no side table. -/
structure Bare (l : Estate) (sid : SessionId) : Prop where
  launcher : l.server.mgr.launchers sid = none
  transport : l.server.mgr.transports sid = none
  observer : l.server.mgr.observers sid = none
  side : ¬ l.side.Occurs sid

/-- Sessions that were taken out of the tables are not in them, but for the sentinels of
stops, and reclaimed sessions are forgotten. -/
structure Swept (l : Estate) : Prop where
  fresh : TasksFresh l.server
  stops : ∀ j x, l.server.tasks j = .stop x → x.emptied = true →
    Bare l x.sid ∧ ∀ n, l.server.mgr.sessionLocks x.sid ≠ some (.object n)
  gcs : ∀ j g, l.server.tasks j = .gc g → g.underWay = true → ∀ sid ∈ g.reclaimed,
    Bare l sid ∧ l.server.mgr.sessionLocks sid = none
  forgotten : ∀ sid ∈ l.reclaimed, Forgotten l sid

variable {l : Estate} {s t : State} {sid : SessionId} {m : Manager}

theorem Forgotten.bare (h : Forgotten l sid) : Bare l sid :=
  ⟨h.launcher, h.transport, h.observer, h.side⟩

theorem lt_nextTask (hfresh : TasksFresh s) {j : TaskId} (hj : s.tasks j ≠ .absent) :
    j < s.nextTask :=
  Nat.lt_of_not_le fun hle => hj (hfresh j hle)

theorem stopping_of_task (hfresh : TasksFresh s) {j : TaskId} {x : Stop} (hj : s.tasks j = .stop x)
    (hx : x.emptied = true) : s.stopping x.sid = true := by
  have hlt : j < s.nextTask := lt_nextTask hfresh (by simp [hj])
  exact List.any_eq_true.mpr ⟨j, List.mem_range.mpr hlt, by simp [hj, Task.stopping, hx]⟩

theorem collecting_of_task (hfresh : TasksFresh s) {j : TaskId} {g : Gc} (hj : s.tasks j = .gc g)
    (hg : g.underWay = true) (hsid : sid ∈ g.reclaimed) : s.collecting sid = true := by
  have hlt : j < s.nextTask := lt_nextTask hfresh (by simp [hj])
  exact List.any_eq_true.mpr ⟨j, List.mem_range.mpr hlt, by simp [hj, Task.collecting, hg, hsid]⟩

/-! ## Steps of the server -/

/-- A step drops side tables and adds none. -/
theorem occurs_of_follow {e : Event} (h : (l.follow e t).side.Occurs sid) : l.side.Occurs sid := by
  simp only [Estate.follow] at h
  split at h
  · exact SideTables.occurs_of_dropSessionSideTables h
  · exact h

/-- A session that was taken out of the tables stays out of them. -/
theorem Bare.follow {e : Event} (h : Bare l sid) (hstep : machine.step l.server e = some t)
    (hregisters : registers l.server e ≠ some sid) : Bare (l.follow e t) sid := by
  have hside : ¬ (l.follow e t).side.Occurs sid := fun hoccurs => h.side (occurs_of_follow hoccurs)
  by_cases hcloses : closes l.server e = some sid
  · obtain ⟨hlauncher, htransport, hobserver, -⟩ := emptied_of_closes hstep hcloses
    exact ⟨hlauncher, htransport, hobserver, hside⟩
  · have hsheds : Sheds sid l.server.mgr t.mgr := sheds_step hstep hregisters hcloses
    exact ⟨hsheds.launcher.elim id fun heq => heq.trans h.launcher,
      hsheds.transport.elim id fun heq => heq.trans h.transport,
      hsheds.observer.elim id fun heq => heq.trans h.observer, hside⟩

/-- A stop takes its session out of all tables of handles and all side tables. -/
theorem bare_of_closes {e : Event} (hstep : machine.step l.server e = some t)
    (hcloses : closes l.server e = some sid) : Bare (l.follow e t) sid := by
  obtain ⟨hlauncher, htransport, hobserver, -⟩ := emptied_of_closes hstep hcloses
  refine ⟨hlauncher, htransport, hobserver, ?_⟩
  have hside : (l.follow e t).side = l.side.dropSessionSideTables sid := by
    simp only [Estate.follow, dropsSideTables, hcloses]
  rw [hside]
  exact SideTables.not_occurs_dropSessionSideTables

/-- A collection takes a session whose handles did not change out of the tables. -/
theorem bare_gcDrop {entry : GcEntry} (h : m.Unchanged entry) :
    (gcDrop m entry).launchers entry.sid = none ∧ (gcDrop m entry).transports entry.sid = none ∧
      (gcDrop m entry).observers entry.sid = none := by
  have hdrop (table : SessionId → Option ℕ) (seen : Option ℕ)
      (hseen : table entry.sid = none ∨ table entry.sid = seen) :
      (if table entry.sid = seen then update table entry.sid none else table) entry.sid = none := by
    split
    · exact update_self _ _ _
    · exact hseen.resolve_right ‹_›
  obtain ⟨-, hlauncher, htransport, hobserver⟩ := h
  exact ⟨hdrop _ _ hlauncher, hdrop _ _ htransport, hdrop _ _ hobserver⟩

/-- A stop that stands after its first section has emptied the tables, now or before. -/
theorem emptied_stopStep {x : Stop} {o : Outcome} {r : Manager × Stop}
    (h : stopStep m x o = some r) (hr : r.2.emptied = true) :
    r.2.sid = x.sid ∧ (x.emptied = true ∨ x.closes m o = some x.sid) := by
  have htoKill (goal : Option Target) : (x.toKill goal).sid = x.sid := by
    cases goal <;> rfl
  cases takes_of_stopStep h with
  | @looks reads hphase =>
    rcases hrecord : (m.load reads).lookup x.sid with _ | record
    · simp only [stopLook, hrecord] at hr
      cases hr
    · refine ⟨?_, Or.inr (if_pos ⟨hphase, by rw [hrecord]; rfl⟩)⟩
      simp only [stopLook, hrecord]
      split
      · rfl
      · exact htoKill _
  | closed hphase | closeRaises hphase =>
    exact ⟨htoKill _, Or.inl (by simp [Stop.emptied, hphase])⟩
  | killed hphase | recordedRaises hphase | recordedRefuses hphase =>
    exact ⟨rfl, Or.inl (by simp [Stop.emptied, hphase])⟩
  | removes =>
    unfold stopRemove at hr
    split at hr <;> cases hr
  -- It raises.
  | lookCancelled | closeCancelled | launcherRaises | killCancelled => cases hr

theorem reclaimed_toKill (g : Gc) (fresh : Sessions) (entry : GcEntry) (entries : List GcEntry) :
    (g.toKill fresh entry entries).reclaimed = g.reclaimed := by
  unfold Gc.toKill
  split <;> rfl

theorem reclaimed_gcDecide (m : Manager) (g : Gc) (fresh : Sessions) (entries : List GcEntry) :
    (gcDecide m g fresh entries).reclaimed = g.reclaimed := by
  cases entries with
  | nil => rfl
  | cons entry entries =>
    simp only [gcDecide]
    split
    · rfl
    · split
      · rfl
      · exact reclaimed_toKill g fresh entry entries

/-- A collection adds to its sessions the one that it takes out of the tables. -/
theorem reclaimed_gcStep {g : Gc} {o : Outcome} {r : Manager × Gc} (h : gcStep m g o = some r)
    (hr : r.2.underWay = true) (hsid : sid ∈ r.2.reclaimed) :
    g.underWay = true ∧ (sid ∈ g.reclaimed ∨ ∃ fresh entry entries,
      g.phase = .dropping fresh entry entries ∧ o = .returns ∧ sid = entry.sid ∧
        r.1 = gcDrop m entry) := by
  have hactive : g.phase ≠ .ended → g.underWay = true := by
    unfold Gc.underWay
    split
    · exact fun hne => absurd ‹_› hne
    · exact fun _ => rfl
  cases takes_of_gcStep h with
  | scansNone => cases hr
  | decides hphase =>
    rw [reclaimed_gcDecide] at hsid
    exact ⟨hactive (by simp [hphase]), Or.inl hsid⟩
  | closed hphase | closeRaises hphase =>
    rw [reclaimed_toKill] at hsid
    exact ⟨hactive (by simp [hphase]), Or.inl hsid⟩
  | @drops fresh entry entries hphase =>
    refine ⟨hactive (by simp [hphase]), ?_⟩
    rcases List.mem_append.mp hsid with hold | hnew
    · exact Or.inl hold
    · exact Or.inr ⟨fresh, entry, entries, hphase, rfl, List.mem_singleton.mp hnew, rfl⟩
  | scans _ hphase | scanCancelled hphase | rereads hphase | rereadCancelled hphase
  | closeCancelled hphase | killed hphase | killRefused hphase | killRaises hphase
  | killCancelled hphase | dropCancelled hphase | removes hphase =>
    exact ⟨hactive (by simp [hphase]), Or.inl hsid⟩

/-! ## Invariant steps -/

/-- The entry of a session that is being stopped stays a sentinel. -/
theorem lock_follow {e : Event} (h : ∀ n, s.mgr.sessionLocks sid ≠ some (.object n))
    (hstep : machine.step s e = some t) (hregisters : registers s e ≠ some sid) (n : ℕ) :
    t.mgr.sessionLocks sid ≠ some (.object n) := by
  by_cases hcloses : closes s e = some sid
  · obtain ⟨-, -, -, hlock⟩ := emptied_of_closes hstep hcloses
    rw [hlock]
    simp
  · rcases (sheds_step hstep hregisters hcloses).lock with hnone | hsame
    · rw [hnone]
      simp
    · rw [hsame]
      exact h n

/-- A session without an entry gets none. -/
theorem lock_none_follow {e : Event} (h : s.mgr.sessionLocks sid = none)
    (hstep : machine.step s e = some t) (hregisters : registers s e ≠ some sid)
    (hcloses : closes s e ≠ some sid) : t.mgr.sessionLocks sid = none :=
  (sheds_step hstep hregisters hcloses).lock.elim id fun hsame => hsame.trans h

/-- A stop closes only a session that has a record. -/
theorem closes_ne_of_lookup {e : Event} (h : s.mgr.sessions.lookup sid = none) :
    closes s e ≠ some sid := by
  intro hcloses
  cases e with
  | stop i o =>
    simp only [closes] at hcloses
    split at hcloses
    · unfold Stop.closes at hcloses
      split at hcloses
      · split at hcloses <;> cases hcloses
        rename_i hfound
        rw [lookup_load_none h] at hfound
        cases hfound.2
      · cases hcloses
    · cases hcloses
  | _ => cases hcloses

/-- The last section of a stop leaves neither the record nor the sentinel. -/
theorem forgets_stopRemove {x : Stop} (reads : Bool)
    (hlock : ∀ n, m.sessionLocks x.sid ≠ some (.object n)) :
    (stopRemove m x (.done reads)).1.sessionLocks x.sid = none ∧
      (stopRemove m x (.done reads)).1.sessions.lookup x.sid = none := by
  have hremove : (stopRemove m x (.done reads)).1 =
      { (m.save ((m.load reads).erase x.sid)).dropSentinel x.sid with
        stopped := x.sid :: m.stopped } := rfl
  rw [hremove]
  unfold Manager.dropSentinel
  split
  · exact ⟨update_self _ _ _, AList.lookup_erase _ _⟩
  · rename_i hclosing
    refine ⟨?_, AList.lookup_erase _ _⟩
    rcases hentry : m.sessionLocks x.sid with _ | ref
    · exact hentry
    · cases ref with
      | closing => exact absurd hentry hclosing
      | object n => exact absurd hentry (hlock n)

/-- The sessions that a step reclaims are forgotten after it. -/
theorem forgotten_of_reclaims {e : Event} (h : Swept l) (hstep : machine.step l.server e = some t)
    (hsid : sid ∈ reclaims l.server e) : Forgotten (l.follow e t) sid := by
  have hmachine := hstep
  replace hstep : step l.server e = some t := hstep
  -- a stop reclaims its session with its removal, a collection all of its sessions at once
  unfold reclaims at hsid
  split at hsid
  · rename_i i reads
    split at hsid
    · rename_i x hi
      split at hsid
      · rename_i hphase
        obtain rfl := List.mem_singleton.mp hsid
        obtain ⟨hbare, hlock⟩ := h.stops i x hi (by simp [Stop.emptied, hphase])
        have hbare' := hbare.follow hmachine (by simp [registers])
        simp only [step, hi, stopStep, hphase] at hstep
        obtain rfl := Option.some.inj hstep
        obtain ⟨hnone, hrecord⟩ := forgets_stopRemove reads hlock
        exact
          { launcher := hbare'.launcher
            transport := hbare'.transport
            observer := hbare'.observer
            lock := hnone
            side := hbare'.side
            record := hrecord }
      · cases hsid
    · cases hsid
  · rename_i i reads
    split at hsid
    · rename_i g hi
      split at hsid
      · rename_i hphase
        obtain ⟨hbare, hlock⟩ := h.gcs i g hi (by simp [Gc.underWay, hphase]) sid hsid
        have hbare' := hbare.follow hmachine (by simp [registers])
        simp only [step, hi, gcStep, hphase] at hstep
        obtain rfl := Option.some.inj hstep
        exact
          { launcher := hbare'.launcher
            transport := hbare'.transport
            observer := hbare'.observer
            lock := hlock
            side := hbare'.side
            record := (lookup_foldl_erase _ _ _).trans (if_pos hsid) }
      · cases hsid
    · cases hsid
  · cases hsid

/-- A tidy step registers no session that is leaving. -/
theorem Tidy.registers_ne {e : Event} (hguard : Tidy l (.server e))
    (hleaving : l.leaving sid = true) : registers l.server e ≠ some sid := fun heq => by
  rw [hguard.1 sid heq] at hleaving
  cases hleaving

/-- A stop that has emptied the tables finds them so, and one that empties them now leaves
them so. -/
theorem Swept.stops_follow {e : Event} (h : Swept l) (hguard : Tidy l (.server e))
    (hstep : machine.step l.server e = some t) {j : TaskId} {y : Stop} (hj : t.tasks j = .stop y)
    (hy : y.emptied = true) :
    Bare (l.follow e t) y.sid ∧ ∀ n, t.mgr.sessionLocks y.sid ≠ some (.object n) := by
  have hkept {x : Stop} (hx : l.server.tasks j = .stop x) (hemptied : x.emptied = true) :
      Bare (l.follow e t) x.sid ∧ ∀ n, t.mgr.sessionLocks x.sid ≠ some (.object n) := by
    obtain ⟨hbare, hlock⟩ := h.stops j x hx hemptied
    have hnot : registers l.server e ≠ some x.sid := hguard.registers_ne (by
      simp [Estate.leaving, stopping_of_task h.fresh hx hemptied])
    exact ⟨hbare.follow hstep hnot, lock_follow hlock hstep hnot⟩
  cases task_of_step hstep j with
  | same hsame => exact hkept (hsame.symm.trans hj) hy
  | tool hx => cases hx.symm.trans hj
  | start hx => cases hx.symm.trans hj
  | stopCalled hx =>
    obtain rfl := Task.stop.inj (hx.symm.trans hj)
    cases hy
  | gcCalled hx => cases hx.symm.trans hj
  | @stop x _ o hevent hx hstop hz =>
    subst hevent
    obtain rfl := Task.stop.inj (hz.symm.trans hj)
    obtain ⟨hown, hbefore⟩ := emptied_stopStep hstop hy
    rw [hown]
    rcases hbefore with hemptied | hcloses
    · exact hkept hx hemptied
    · have hcloses : closes l.server (.stop j o) = some x.sid := by
        simp only [closes, hx, hcloses]
      refine ⟨bare_of_closes hstep hcloses, fun n => ?_⟩
      obtain ⟨-, -, -, hlock⟩ := emptied_of_closes hstep hcloses
      show t.mgr.sessionLocks x.sid ≠ some (.object n)
      rw [hlock]
      simp
  | gc _ _ _ hx => cases hx.symm.trans hj

/-- What a collection has taken out stays out, and what it takes out now nobody replaced. -/
theorem Swept.gcs_follow {e : Event} (h : Swept l) (hguard : Tidy l (.server e))
    (hstep : machine.step l.server e = some t) {j : TaskId} {q : Gc} (hj : t.tasks j = .gc q)
    (hq : q.underWay = true) (hsid : sid ∈ q.reclaimed) :
    Bare (l.follow e t) sid ∧ t.mgr.sessionLocks sid = none := by
  have hkept {g : Gc} (hg : l.server.tasks j = .gc g) (hunderWay : g.underWay = true)
      (hmem : sid ∈ g.reclaimed) :
      Bare (l.follow e t) sid ∧ t.mgr.sessionLocks sid = none := by
    obtain ⟨hbare, hlock⟩ := h.gcs j g hg hunderWay sid hmem
    have hcollecting := collecting_of_task h.fresh hg hunderWay hmem
    have hnot : registers l.server e ≠ some sid := hguard.registers_ne (by
      simp [Estate.leaving, hcollecting])
    refine ⟨hbare.follow hstep hnot, lock_none_follow hlock hstep hnot fun heq => ?_⟩
    rw [hguard.2.1 sid heq] at hcollecting
    cases hcollecting
  cases task_of_step hstep j with
  | same hsame => exact hkept (hsame.symm.trans hj) hq hsid
  | tool hx => cases hx.symm.trans hj
  | start hx => cases hx.symm.trans hj
  | stopCalled hx => cases hx.symm.trans hj
  | gcCalled hx =>
    obtain rfl := Task.gc.inj (hx.symm.trans hj)
    cases hsid
  | stop _ _ _ hx => cases hx.symm.trans hj
  | gc hevent hg hgc hq' =>
    subst hevent
    obtain rfl := Task.gc.inj (hq'.symm.trans hj)
    obtain ⟨hunderWay, hmem | ⟨fresh, entry, entries, hphase, rfl, rfl, hdrop⟩⟩ :=
      reclaimed_gcStep hgc hq hsid
    · exact hkept hg hunderWay hmem
    · have hcollects : collects l.server (.gc j .returns) = some entry := by
        simp only [collects, hg, hphase]
      have hunchanged := hguard.2.2.2 entry hcollects
      obtain ⟨hlauncher, htransport, hobserver⟩ := bare_gcDrop hunchanged
      have hmgr : t.mgr = gcDrop l.server.mgr entry := hdrop
      have hside : (l.follow (.gc j .returns) t).side =
          l.side.dropSessionSideTables entry.sid := by
        simp only [Estate.follow, dropsSideTables, closes, hcollects, Option.map_some]
      refine ⟨⟨?_, ?_, ?_, ?_⟩, ?_⟩
      · exact hmgr ▸ hlauncher
      · exact hmgr ▸ htransport
      · exact hmgr ▸ hobserver
      · rw [hside]
        exact SideTables.not_occurs_dropSessionSideTables
      · show t.mgr.sessionLocks entry.sid = none
        rw [hmgr]
        exact hunchanged.1

/-- A session that was reclaimed before the step is still forgotten after it. -/
theorem Swept.forgotten_follow {e : Event} (h : Swept l) (hguard : Tidy l (.server e))
    (hstep : machine.step l.server e = some t) (hsid : sid ∈ l.reclaimed) :
    Forgotten (l.follow e t) sid := by
  have hold := h.forgotten sid hsid
  have hnot : registers l.server e ≠ some sid := hguard.registers_ne (by
    simp [Estate.leaving, hsid])
  have hbare := hold.bare.follow hstep hnot
  exact
    { launcher := hbare.launcher
      transport := hbare.transport
      observer := hbare.observer
      lock := lock_none_follow hold.lock hstep hnot (closes_ne_of_lookup hold.record)
      side := hbare.side
      record := lookup_none_step hstep (fun heq => hguard.2.2.1 sid heq hsid) hold.record }

/-- A step of the server keeps the tables swept. -/
theorem swept_follow {e : Event} (h : Swept l) (hguard : Tidy l (.server e))
    (hstep : machine.step l.server e = some t) : Swept (l.follow e t) where
  fresh := tasksFresh_step h.fresh hstep
  stops _ _ hj hy := h.stops_follow hguard hstep hj hy
  gcs _ _ hj hq _ hsid := h.gcs_follow hguard hstep hj hq hsid
  forgotten sid hsid := by
    rcases List.mem_append.mp hsid with hold | hnew
    · exact h.forgotten_follow hguard hstep hold
    · exact forgotten_of_reclaims h hstep hnew

/-- Every tidy step keeps the tables swept. -/
theorem swept_step {e : EstateEvent} {l' : Estate} (h : Swept l) (hguard : Tidy l e)
    (hstep : estate.step l e = some l') : Swept l' := by
  replace hstep : estateStep l e = some l' := hstep
  cases e with
  | server e =>
    obtain ⟨t, ht, rfl⟩ := Option.map_eq_some_iff.mp hstep
    exact swept_follow h hguard ht
  | side w =>
    cases hstep
    -- a tidy write to the side tables is for no session that is leaving
    have hbare {sid : SessionId} (hsid : Bare l sid) (hleaving : l.leaving sid = true) :
        Bare { l with side := w.apply l.side } sid := by
      refine ⟨hsid.launcher, hsid.transport, hsid.observer, fun hoccurs => ?_⟩
      rcases SideWrite.occurs_of_apply hoccurs with hadds | hold
      · rw [hguard sid hadds] at hleaving
        cases hleaving
      · exact hsid.side hold
    refine ⟨h.fresh, fun j x hj hx => ?_, fun j g hj hg sid hsid => ?_, fun sid hsid => ?_⟩
    · obtain ⟨hold, hlock⟩ := h.stops j x hj hx
      exact ⟨hbare hold (by simp [Estate.leaving, stopping_of_task h.fresh hj hx]), hlock⟩
    · obtain ⟨hold, hlock⟩ := h.gcs j g hj hg sid hsid
      exact ⟨hbare hold (by simp [Estate.leaving, collecting_of_task h.fresh hj hg hsid]), hlock⟩
    · have hold := h.forgotten sid hsid
      have hnew := hbare hold.bare (by simp [Estate.leaving, show sid ∈ l.reclaimed from hsid])
      exact ⟨hnew.launcher, hnew.transport, hnew.observer, hold.lock, hnew.side, hold.record⟩
  | lands k =>
    simp only [estateStep] at hstep
    split at hstep <;> cases hstep
    rename_i sessions hk
    have hbare {sid : SessionId} (hsid : Bare l sid) :
        Bare { l.land sessions with pending := l.pending.eraseIdx k } sid :=
      ⟨hsid.launcher, hsid.transport, hsid.observer, hsid.side⟩
    refine ⟨h.fresh, fun j x hj hx => ?_, fun j g hj hg sid hsid => ?_, fun sid hsid => ?_⟩
    · exact (h.stops j x hj hx).imp hbare id
    · exact (h.gcs j g hj hg sid hsid).imp hbare id
    · have hold := h.forgotten sid hsid
      exact ⟨hold.launcher, hold.transport, hold.observer, hold.lock, hold.side,
        hguard sessions hk sid hsid⟩

/-- After a stop or a collection has reclaimed a session, nothing of it is left, in runs in
which no step puts a session back that is being reclaimed. -/
theorem forgotten_of_reaches {sessions : Sessions} {procs : ℕ → Proc} {nextLauncher : ℕ}
    (h : estate.Reaches Tidy (Estate.init sessions procs nextLauncher) l)
    (hsid : sid ∈ l.reclaimed) : Forgotten l sid := by
  have hinit : Swept (Estate.init sessions procs nextLauncher) :=
    ⟨fun _ _ => rfl, fun _ _ hj => (nomatch hj), fun _ _ hj => (nomatch hj),
      fun _ hmem => (nomatch hmem)⟩
  have hswept : Swept l := h.invariant hinit fun _ _ _ hold hguard hstep =>
    swept_step hold hguard hstep
  exact hswept.forgotten sid hsid

/-! ## Runs -/

instance (l : Estate) (e : EstateEvent) : Decidable (Tidy l e) := by
  unfold Tidy
  split <;> infer_instance

/-- A session is started; the first attempt to stop it fails to kill the process. -/
def failedStopRun : List EstateEvent :=
  [.server (.callStart 7 false 0), .server (.start 0 (.spawned 5000)),
   .server (.start 0 (.io (.done true))), .server (.start 0 .returns), .server (.callStop 7),
   .server (.stop 1 (.io (.done true))), .server (.stop 1 .raises)]

/-- The stop is called again. -/
def retriedStopRun : List EstateEvent :=
  failedStopRun ++ [.server (.callStop 7), .server (.stop 2 (.io (.done true))),
    .server (.stop 2 .returns), .server (.stop 2 (.io (.done true)))]

/-- The stop that is retried leaves nothing behind. -/
theorem forgotten_retriedStopRun : ∃ l, 7 ∈ l.reclaimed ∧ Forgotten l 7 := by
  have hends : ((estate.runWith Tidy (Estate.init ∅ (fun _ => .unborn) 0) retriedStopRun).any
      fun l => decide (7 ∈ l.reclaimed)) = true := by
    decide +kernel
  obtain ⟨l, hl, htest⟩ := Machine.exists_reaches_of_runWith _ hends
  have hreclaimed : 7 ∈ l.reclaimed := of_decide_eq_true htest
  exact ⟨l, hreclaimed, forgotten_of_reaches hl hreclaimed⟩

/-- The collector reclaims the session instead. -/
def collectedRun : List EstateEvent :=
  failedStopRun ++ [.server (.passes 1801), .server .callGc, .server (.gc 2 (.io (.done true))),
    .server (.gc 2 (.io (.done true))), .server (.gc 2 .returns), .server (.gc 2 .returns),
    .server (.gc 2 .returns), .server (.gc 2 .returns), .server (.gc 2 (.io (.done true)))]

/-- The sentinel of the stop that failed stays in the table of locks for good. -/
theorem remnant_after_gc :
    ¬ ∀ (sessions : Sessions) (procs : ℕ → Proc) (nextLauncher : ℕ) (l : Estate) (sid : SessionId),
      estate.Reachable (Estate.init sessions procs nextLauncher) l → sid ∈ l.reclaimed →
        Forgotten l sid := by
  intro hall
  have hends : ((estate.run (Estate.init ∅ (fun _ => .unborn) 0) collectedRun).any fun l =>
      decide (7 ∈ l.reclaimed ∧ l.server.mgr.sessionLocks 7 = some .closing)) = true := by
    decide +kernel
  obtain ⟨l, hl, htest⟩ := Machine.exists_reachable_of_run _ hends
  obtain ⟨hreclaimed, hlock⟩ := of_decide_eq_true htest
  have hforgotten := hall ∅ _ 0 l 7 hl hreclaimed
  exact absurd (hlock.symm.trans hforgotten.lock) (by simp)

end Session
