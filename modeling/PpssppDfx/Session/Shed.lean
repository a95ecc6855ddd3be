import PpssppDfx.Session.Custody
import PpssppDfx.Session.Ledger

/-!
# Which steps put a session into the tables

A session gets into the tables of launchers, transports and observers by its start, into the
table of locks by a tool call or by a stop, which leaves a sentinel there, and into the file
by its start. All other steps leave its entries or take them out.

## Main definitions

* `Session.Sheds` — what all other steps do to the entries of a session
* `Session.registers`, `Session.closes`, `Session.saves` — the sessions that a step may put
  into a table

## Main results

* `sheds_step`, `emptied_of_closes`, `lookup_none_step`
* `task_of_step` — which stops and collections stand where after a step
-/

set_option autoImplicit false

namespace Session

open Semantics Function

/-! ## Steps that register -/

/-- The session for which a tool's step may create a lock. -/
def Tool.registers (m : Manager) (x : Tool) : ToolEvent → Option SessionId
  | .touches io _ =>
    match x.phase with
    | .touching sid .enter =>
      if io = .cutEarly ∨ (m.sessions.lookup sid).isNone ∨ (m.sessionLocks sid).isSome then none
      else some sid
    | _ => none
  | _ => none

/-- The session for which a start's step may register a launcher or handles. -/
def Start.registers (m : Manager) (x : Start) : StartEvent → Option SessionId
  | .spawned _ => if x.phase = .spawning then some x.sid else none
  | .io io =>
    if x.phase = .binding ∧ io ≠ .cutEarly ∧ (m.sessions.lookup x.sid).isSome then some x.sid
    else none
  | _ => none

/-- The session into whose lock entry a stop puts the sentinel. -/
def Stop.closes (m : Manager) (x : Stop) : Outcome → Option SessionId
  | .io (.done reads) =>
    if x.phase = .looking ∧ ((m.load reads).lookup x.sid).isSome then some x.sid else none
  | _ => none

/-- The session that a step may put into a table of handles or of locks. -/
def registers (s : State) : Event → Option SessionId
  | .tool i e =>
    match s.tasks i with
    | .tool x => x.registers s.mgr e
    | _ => none
  | .start i e =>
    match s.tasks i with
    | .start x => x.registers s.mgr e
    | _ => none
  | _ => none

/-- The session that a stop takes out of the tables. -/
def closes (s : State) : Event → Option SessionId
  | .stop i o =>
    match s.tasks i with
    | .stop x => x.closes s.mgr o
    | _ => none
  | _ => none

/-- The session whose start may save a record. -/
def saves (s : State) (e : Event) : Option SessionId :=
  match editOf s e with
  | some (.persist sid _, io) => if io = .cutEarly then none else some sid
  | _ => none

/-! ## Other steps -/

variable {m m' : Manager} {sid : SessionId} {s t : State}

/-- The entries of the session stay, or vanish. -/
structure Sheds (sid : SessionId) (m m' : Manager) : Prop where
  launcher : m'.launchers sid = none ∨ m'.launchers sid = m.launchers sid
  transport : m'.transports sid = none ∨ m'.transports sid = m.transports sid
  observer : m'.observers sid = none ∨ m'.observers sid = m.observers sid
  lock : m'.sessionLocks sid = none ∨ m'.sessionLocks sid = m.sessionLocks sid

namespace Sheds

theorem of_eq (hlaunchers : m'.launchers = m.launchers) (htransports : m'.transports = m.transports)
    (hobservers : m'.observers = m.observers) (hlocks : m'.sessionLocks = m.sessionLocks) :
    Sheds sid m m' :=
  ⟨Or.inr (congrFun hlaunchers sid), Or.inr (congrFun htransports sid),
    Or.inr (congrFun hobservers sid), Or.inr (congrFun hlocks sid)⟩

theorem refl (m : Manager) : Sheds sid m m := of_eq rfl rfl rfl rfl

theorem trans {m'' : Manager} (h : Sheds sid m m') (h' : Sheds sid m' m'') : Sheds sid m m'' where
  launcher := h'.launcher.elim Or.inl fun heq => heq ▸ h.launcher
  transport := h'.transport.elim Or.inl fun heq => heq ▸ h.transport
  observer := h'.observer.elim Or.inl fun heq => heq ▸ h.observer
  lock := h'.lock.elim Or.inl fun heq => heq ▸ h.lock

/-- A step that gives the session no handle. -/
theorem of_inert (h : Inert sid m m')
    (hlock : m'.sessionLocks sid = none ∨ m'.sessionLocks sid = m.sessionLocks sid) :
    Sheds sid m m' :=
  ⟨h.launcher, h.transport, h.observer, hlock⟩

theorem of_update {modify : Sessions → Option Sessions} {io : Io} {result : SectionResult}
    (h : m.updateSessions modify io = (m', result)) : Sheds sid m m' := by
  rw [updateSessions_save h]
  exact of_eq rfl rfl rfl rfl

end Sheds

theorem sessionLocks_kill (pid : ℕ) : (m.kill pid).sessionLocks = m.sessionLocks := by
  unfold Manager.kill
  split <;> rfl

theorem sheds_kill (m : Manager) (pid : ℕ) : Sheds sid m (m.kill pid) :=
  .of_inert (inert_kill m pid) (Or.inr (congrFun (sessionLocks_kill pid) sid))

theorem sheds_spawn (m : Manager) (pid : ℕ) : Sheds sid m (m.spawn pid) := by
  unfold Manager.spawn
  split
  · exact .of_eq rfl rfl rfl rfl
  · exact .refl m

theorem sheds_leave (m : Manager) (w : Worker) : Sheds sid m (m.leave w) := .of_eq rfl rfl rfl rfl

theorem sheds_endWorker (m : Manager) (w : Worker) (ok : Bool) :
    Sheds sid m (m.endWorker w ok) := by
  have herase : Sheds sid m { m with workers := m.workers.erase w } := .of_eq rfl rfl rfl rfl
  unfold Manager.endWorker
  cases w <;> dsimp only <;> split
  · exact herase.trans (sheds_spawn _ _)
  · exact herase
  · exact herase.trans (sheds_kill _ _)
  · exact herase

/-- An entry is taken out of the table of locks. -/
theorem sheds_dropEntry (m : Manager) (other : SessionId) :
    Sheds sid m (m.setEntry other none) := by
  refine ⟨Or.inr rfl, Or.inr rfl, Or.inr rfl, ?_⟩
  show update m.sessionLocks other none sid = none ∨ update m.sessionLocks other none sid = _
  rw [update_apply]
  split
  · exact Or.inl rfl
  · exact Or.inr rfl

theorem sheds_popHandles (m : Manager) (other : SessionId) : Sheds sid m (m.popHandles other) :=
  .of_inert (inert_popHandles m other) (Or.inr rfl)

/-! ## Tools, stops and collections -/

theorem sheds_enterLock (i : TaskId) (x : Tool) (other : SessionId) (ref : LockRef) :
    Sheds sid m (enterLock m i x other ref).1 := by
  unfold enterLock
  split
  · exact .refl m
  · split <;> exact .of_eq rfl rfl rfl rfl

/-- A tool call that finds the lock of its session. -/
theorem sheds_afterTouch (i : TaskId) (busy : SessionId → Bool) (x : Tool) (other : SessionId)
    (after : After) (hlock : after = .enter → other = sid → (m.sessionLocks other).isSome = true) :
    Sheds sid m (afterTouch m i busy x other after).1 := by
  cases after with
  | stay => exact .refl m
  | submit => exact .refl m
  | enter =>
    have hentry : Sheds sid m (m.sessionLock other).1 := by
      unfold Manager.sessionLock
      split
      · exact .refl m
      · rename_i hnone
        have hother : sid ≠ other := by
          rintro rfl
          have hsome := hlock rfl rfl
          rw [hnone] at hsome
          cases hsome
        exact ⟨Or.inr rfl, Or.inr rfl, Or.inr rfl, Or.inr (update_of_ne hother _ _)⟩
    exact hentry.trans (sheds_enterLock i x other _)

theorem sheds_toolStep {i : TaskId} {busy : SessionId → Bool} {x : Tool} {e : ToolEvent}
    {r : Manager × Tool × Option SessionId} (h : toolStep m i busy x e = some r)
    (hregisters : x.registers m e ≠ some sid) : Sheds sid m r.1 := by
  cases takes_of_toolStep h with
  | @touches other after io live m₁ htouch hphase =>
    have htables : Sheds sid m m₁ := .of_update htouch
    refine htables.trans (sheds_afterTouch i busy x other after fun hafter hother => ?_)
    subst hafter hother
    -- The touch has found a record, so that the tool would create the lock.
    simp only [Tool.registers, hphase] at hregisters
    have hsame : m₁.sessionLocks = m.sessionLocks := by
      rw [updateSessions_save htouch]
      rfl
    rw [hsame]
    by_contra hnone
    refine hregisters (if_neg ?_)
    rintro (rfl | hlookup | hsome)
    · exact absurd (congrArg Prod.snd htouch)
        (by simp [Manager.touchSession, Manager.updateSessions])
    · obtain ⟨reads, sessions, hmodify, -⟩ := Manager.updateSessions_saved htouch
      obtain ⟨r, hr, -⟩ := Option.map_eq_some_iff.mp hmodify
      rw [lookup_load_none (Option.isNone_iff_eq_none.mp hlookup)] at hr
      cases hr
    · exact hnone hsome
  | touchFails htouch => exact .of_update htouch
  | _ => exact .of_eq rfl rfl rfl rfl

theorem sheds_stopStep {x : Stop} {o : Outcome} {r : Manager × Stop}
    (h : stopStep m x o = some r) (hcloses : x.closes m o ≠ some sid) : Sheds sid m r.1 := by
  refine .of_inert (inert_stopStep h) ?_
  cases takes_of_stopStep h with
  | looks hphase =>
    unfold stopLook
    split
    · exact Or.inr rfl
    · rename_i r hr
      have hother : sid ≠ x.sid := by
        rintro rfl
        exact hcloses (if_pos ⟨hphase, by rw [hr]; rfl⟩)
      exact Or.inr (update_of_ne hother _ _)
  | killed => exact Or.inr (congrFun (sessionLocks_kill _) sid)
  | removes =>
    unfold stopRemove
    split
    · rename_i m₁ heq
      have hdrop : Sheds sid m₁ (m₁.dropSentinel x.sid) := by
        unfold Manager.dropSentinel
        split
        · exact sheds_dropEntry m₁ x.sid
        · exact .refl m₁
      exact (Sheds.trans (.of_update heq) hdrop).lock
    · rename_i heq
      have hsave : Sheds sid m _ := .of_update heq
      exact hsave.lock
  | _ => exact Or.inr rfl

theorem sheds_gcStep {g : Gc} {o : Outcome} {r : Manager × Gc} (h : gcStep m g o = some r) :
    Sheds sid m r.1 := by
  refine .of_inert (inert_gcStep h) ?_
  cases takes_of_gcStep h with
  | killed => exact Or.inr (congrFun (sessionLocks_kill _) sid)
  | @removes io =>
    have hsave : Sheds sid m (gcRemove m g io).1 := .of_update (Prod.eta _).symm
    exact hsave.lock
  | _ => exact Or.inr rfl

/-! ## Starts -/

variable {x : Start}

theorem sheds_escape (m : Manager) (x : Start) : Sheds sid m (escape m x).1 := by
  unfold escape
  split
  · exact .refl m
  · split
    · exact .refl m
    · exact .of_inert (inert_popLauncher m x.sid) (Or.inr rfl)

theorem sheds_afterHandles (m : Manager) (x : Start) (notFound : Bool) :
    Sheds sid m (afterHandles m x notFound).1 := by
  unfold afterHandles
  split
  · exact sheds_escape m x
  · exact .refl m

theorem sheds_gateRead (m : Manager) (x : Start) (reads : Bool) :
    Sheds sid m (gateRead m x reads).1 := by
  unfold gateRead
  split
  · exact .refl m
  · exact sheds_escape m x

theorem sheds_teardown (m : Manager) (x : Start) (why : Why) : Sheds sid m (teardown m x why).1 :=
  (sheds_popHandles m x.sid).trans (sheds_dropEntry _ x.sid)

theorem sheds_popTransport (m : Manager) (other : SessionId) : Sheds sid m (m.popTransport other) :=
  .of_inert (inert_popTransport m other) (Or.inr rfl)

theorem sheds_popObserver (m : Manager) (other : SessionId) : Sheds sid m (m.popObserver other) :=
  .of_inert (inert_popObserver m other) (Or.inr rfl)

theorem sheds_register (h : sid ≠ x.sid) : Sheds sid m (m.register x) :=
  ⟨Or.inr rfl, Or.inr (update_of_ne h _ _), Or.inr (update_of_ne h _ _), Or.inr rfl⟩

theorem sheds_persist (m : Manager) (x : Start) (port : ℕ) (io : Io) :
    Sheds sid m (persist m x port io).1 := by
  unfold persist
  dsimp only
  split <;> rename_i heq
  · exact .of_update heq
  · exact Sheds.trans (.of_update heq) (.of_inert (inert_popLauncher _ x.sid) (Or.inr rfl))
  · exact Sheds.trans (.of_update heq) (sheds_escape _ x)

theorem sheds_markConnected (m : Manager) (x : Start) (io : Io) :
    Sheds sid m (markConnected m x io).1 := by
  unfold markConnected
  dsimp only
  split <;> rename_i heq
  · exact .of_update heq
  · exact .of_update heq
  · exact Sheds.trans (.of_update heq) (sheds_escape _ x)

theorem sheds_fold (m : Manager) (x : Start) (io : Io) : Sheds sid m (fold m x io).1 := by
  unfold fold
  split <;> rename_i heq
  · exact .of_update heq
  · exact .of_update heq
  · exact Sheds.trans (.of_update heq) (sheds_escape _ x)

/-- A start registers handles only if it finds its record. -/
theorem sheds_bind {io : Io} (hphase : x.phase = .binding)
    (hregisters : x.registers m (.io io) ≠ some sid) : Sheds sid m (bind m x io).1 := by
  by_cases hown : sid = x.sid
  · subst hown
    -- The section is cancelled before it reads, or finds no record.
    have hquiet : io = .cutEarly ∨ m.sessions.lookup x.sid = none := by
      by_contra hboth
      obtain ⟨hio, hsome⟩ := not_or.mp hboth
      exact hregisters (if_pos ⟨hphase, hio, Option.isSome_iff_ne_none.mpr hsome⟩)
    rcases hquiet with rfl | hnone
    · exact sheds_escape m x
    · have habsent (reads : Bool) : ((m.load reads).lookup x.sid).map
          (fun r => (m.load reads).insert x.sid r) = none := by
        rw [lookup_load_none hnone reads, Option.map_none]
      unfold bind
      split <;> rename_i heq <;> obtain ⟨rfl, hresult⟩ := updateSessions_none habsent heq
      · exact absurd hresult (by simp)
      · exact .refl _
      · exact absurd hresult (by simp)
      · obtain rfl : _ = false := by simpa using hresult
        exact sheds_escape _ x
  · unfold bind
    split <;> rename_i heq
    · exact Sheds.trans (.of_update heq) (sheds_register hown)
    · exact .of_update heq
    · exact Sheds.trans (.of_update heq) (sheds_register hown)
    · refine Sheds.trans (.of_update heq) (Sheds.trans ?_ (sheds_escape _ x))
      split
      · exact sheds_register hown
      · exact .refl _

theorem sheds_startStep {e : StartEvent} {r : Manager × Start} (h : startStep m x e = some r)
    (hregisters : x.registers m e ≠ some sid) : Sheds sid m r.1 := by
  cases takes_of_startStep h with
  | spawned _ hphase =>
    have hown : sid ≠ x.sid := by
      rintro rfl
      exact hregisters (if_pos hphase)
    exact (sheds_spawn m x.launcher).trans
      ⟨Or.inr (update_of_ne hown _ _), Or.inr rfl, Or.inr rfl, Or.inr rfl⟩
  | spawnRaises =>
    split
    · exact sheds_spawn m x.launcher
    · exact .refl m
  | binds hphase => exact sheds_bind hphase hregisters
  | relaunches => exact .of_eq rfl rfl rfl rfl
  | @discards io =>
    have hsave : Sheds sid m (discard m x io).1 := .of_update (Prod.eta _).symm
    exact hsave
  | _ =>
    first
      | exact .refl m
      | exact sheds_escape m x
      | exact (sheds_leave m _).trans (sheds_escape _ x)
      | exact (sheds_kill m _).trans (sheds_escape _ x)
      | exact sheds_persist m x _ _
      | exact sheds_markConnected m x _
      | exact sheds_popObserver m x.sid
      | exact sheds_afterHandles m x _
      | exact (sheds_popTransport m x.sid).trans (sheds_afterHandles _ x _)
      | exact sheds_gateRead m x _
      | exact sheds_fold m x _
      | exact sheds_teardown m x _
      | exact sheds_kill m _
      | exact sheds_leave m _

/-! ## Steps -/

/-- A step that may not put the session into a table sheds it. -/
theorem sheds_step {e : Event} (h : machine.step s e = some t)
    (hregisters : registers s e ≠ some sid)
    (hcloses : closes s e ≠ some sid) : Sheds sid s.mgr t.mgr := by
  cases takes_of_step h with
  | tool hi hr => exact sheds_toolStep hr (by simpa [registers, hi] using hregisters)
  | submits hi hr => exact sheds_toolStep hr (by simpa [registers, hi] using hregisters)
  | stop hi hr => exact sheds_stopStep hr (by simpa [closes, hi] using hcloses)
  | gc _ hr => exact sheds_gcStep hr
  | start hi hr => exact sheds_startStep hr (by simpa [registers, hi] using hregisters)
  | @worker w _ ok => exact sheds_endWorker s.mgr w ok
  | dies pid => exact sheds_kill s.mgr pid
  | _ => exact .of_eq rfl rfl rfl rfl

theorem emptied_of_stop {x : Stop} {o : Outcome} {r : Manager × Stop}
    (h : stopStep m x o = some r) (hcloses : x.closes m o = some sid) :
    r.1.launchers sid = none ∧ r.1.transports sid = none ∧ r.1.observers sid = none ∧
      r.1.sessionLocks sid = some .closing := by
  unfold Stop.closes at hcloses
  split at hcloses
  · rename_i reads
    split at hcloses <;> cases hcloses
    rename_i hfound
    obtain ⟨hphase, hsome⟩ := hfound
    obtain ⟨record, hrecord⟩ := Option.isSome_iff_exists.mp hsome
    simp only [stopStep, hphase, stopLook, hrecord] at h
    cases h
    exact ⟨update_self _ _ _, update_self _ _ _, update_self _ _ _, update_self _ _ _⟩
  · cases hcloses

/-- A stop takes its session out of the tables and leaves a sentinel. -/
theorem emptied_of_closes {e : Event} (h : machine.step s e = some t)
    (hcloses : closes s e = some sid) :
    t.mgr.launchers sid = none ∧ t.mgr.transports sid = none ∧ t.mgr.observers sid = none ∧
      t.mgr.sessionLocks sid = some .closing := by
  cases takes_of_step h with
  | stop hi hr => exact emptied_of_stop hr (by simpa [closes, hi] using hcloses)
  | _ => cases hcloses

/-- A section saves a record where there is none only for a start. -/
theorem lookup_none_after {edit : Edit} {io : Io} (hnone : m.sessions.lookup sid = none)
    (hpersist : io = .cutEarly ∨ ∀ record, edit ≠ .persist sid record) :
    (m.after (some (edit, io))).lookup sid = none := by
  rcases hpersist with rfl | hpersist
  · exact hnone
  rcases Manager.updateSessions_cases
    (Prod.eta (m.updateSessions (edit.modify m) io)).symm with
    hsame | ⟨reads, edited, hmodify, hsaved⟩
  · rw [Manager.after, hsame]
    exact hnone
  · rw [Manager.after, hsaved]
    have hload := lookup_load_none hnone reads
    -- of the sections of a start only the first saves a record where there is none
    by_cases hdrops : edit.drops = some sid
    · cases edit with
      | persist own record =>
        obtain rfl : own = sid := Option.some.inj hdrops
        exact absurd rfl (hpersist record)
      | markConnected own record =>
        obtain rfl : own = sid := Option.some.inj hdrops
        simp only [Edit.modify] at hmodify
        split at hmodify <;> cases hmodify
        exact absurd ‹_› (AList.lookup_eq_none.mp hload)
      | discard own =>
        obtain rfl : own = sid := Option.some.inj hdrops
        simp only [Edit.modify] at hmodify
        split at hmodify <;> cases hmodify
        exact absurd ‹_› (AList.lookup_eq_none.mp hload)
      | bind | fold | touch | updateWsConnected | stop | gc => cases hdrops
    · refine Option.eq_none_iff_forall_not_mem.mpr fun r hr => ?_
      obtain ⟨r, hr⟩ := lookup_of_modify hmodify hdrops hr
      rw [hload] at hr
      cases hr

/-- A session without a record gets one only from its start. -/
theorem lookup_none_step {e : Event} (h : machine.step s e = some t) (hsaves : saves s e ≠ some sid)
    (hnone : s.mgr.sessions.lookup sid = none) : t.mgr.sessions.lookup sid = none := by
  rw [sessions_step h]
  rcases hedit : editOf s e with _ | ⟨edit, io⟩
  · exact hnone
  · refine lookup_none_after hnone ?_
    by_contra hboth
    obtain ⟨hio, hpersist⟩ := not_or.mp hboth
    obtain ⟨record, rfl⟩ := Classical.not_forall_not.mp hpersist
    exact hsaves (by simp only [saves, hedit, if_neg hio])

/-! ## Tasks -/

/-- A task after a step: the same, a new one, or one that has gone on. -/
inductive TaskAfter (s : State) (e : Event) (t : State) (j : TaskId) : Prop
  | same (htask : t.tasks j = s.tasks j)
  | tool {x : Tool} (htask : t.tasks j = .tool x)
  | start {x : Start} (htask : t.tasks j = .start x)
  | stopCalled {own : SessionId} (htask : t.tasks j = .stop ⟨own, .looking⟩)
  | gcCalled (htask : t.tasks j = .gc ⟨[], .scanning⟩)
  | stop {x y : Stop} {o : Outcome} (hevent : e = .stop j o) (hbefore : s.tasks j = .stop x)
      (hstop : stopStep s.mgr x o = some (t.mgr, y)) (htask : t.tasks j = .stop y)
  | gc {g q : Gc} {o : Outcome} (hevent : e = .gc j o) (hbefore : s.tasks j = .gc g)
      (hgc : gcStep s.mgr g o = some (t.mgr, q)) (htask : t.tasks j = .gc q)

theorem task_of_step {e : Event} (h : machine.step s e = some t) (j : TaskId) :
    TaskAfter s e t j := by
  have hadd (s : State) (task : Task) :
      (s.addTask task).tasks j = s.tasks j ∨ (s.addTask task).tasks j = task := by
    by_cases hj : j = s.nextTask
    · subst hj
      exact Or.inr (update_self _ _ _)
    · exact Or.inl (update_of_ne hj _ _)
  have hset (s : State) (m : Manager) (i : TaskId) (task : Task) :
      (s.setTask m i task).tasks j = s.tasks j ∨
        j = i ∧ (s.setTask m i task).tasks j = task := by
    by_cases hj : j = i
    · subst hj
      exact Or.inr ⟨rfl, update_self _ _ _⟩
    · exact Or.inl (update_of_ne hj _ _)
  cases takes_of_step h with
  | callTool => exact (hadd s _).elim .same .tool
  | callStop own => exact (hadd s _).elim .same .stopCalled
  | callGc => exact (hadd s _).elim .same .gcCalled
  | callStart _ => exact (hadd _ _).elim (fun htask => .same htask) .start
  | tool _ _ => exact (hset s _ _ _).elim .same fun htask => .tool htask.2
  | @submits i _ _ _ m own _ _ =>
    rcases hadd (s.setTask m i _) (jobTask own) with hsame | hnew
    · exact (hset s m i _).elim (fun htask => .same (hsame.trans htask))
        fun htask => .tool (hsame.trans htask.2)
    · exact .tool hnew
  | @stop i _ _ r hi hr =>
    rcases hset s r.1 i (.stop r.2) with hsame | ⟨rfl, htask⟩
    · exact .same hsame
    · exact .stop rfl hi hr htask
  | @gc i _ _ r hi hr =>
    rcases hset s r.1 i (.gc r.2) with hsame | ⟨rfl, htask⟩
    · exact .same hsame
    · exact .gc rfl hi hr htask
  | start _ _ => exact (hset s _ _ _).elim .same fun htask => .start htask.2
  | worker _ _ => exact .same rfl
  | dies _ => exact .same rfl
  | passes _ => exact .same rfl

end Session
