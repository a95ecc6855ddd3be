import PpssppDfx.Session.Frame

/-!
# Steps that leave a session alone

Stops, collections and tool calls take a session out of the tables and end processes.
They give no session a record that has none, register no handle and launch nothing.

## Main definitions

* `Inert` — what such a step does to one session

## Main results

* `inert_stopStep`, `inert_gcStep`, `inert_toolStep`
-/

set_option autoImplicit false

namespace Session

variable {m m' : Manager} {sid : SessionId}

/-- The session gets no record and no handle, and nothing is launched. -/
structure Inert (sid : SessionId) (m m' : Manager) : Prop where
  record : m.sessions.lookup sid = none → m'.sessions.lookup sid = none
  launcher : m'.launchers sid = none ∨ m'.launchers sid = m.launchers sid
  transport : m'.transports sid = none ∨ m'.transports sid = m.transports sid
  observer : m'.observers sid = none ∨ m'.observers sid = m.observers sid
  procs : ∀ pid, m'.procs pid = .alive → m.procs pid = .alive
  nextLauncher : m'.nextLauncher = m.nextLauncher

/-! ## Sections -/

/-- A section that finds nothing to save leaves the manager alone. -/
theorem updateSessions_none {modify : Sessions → Option Sessions} {io : Io}
    {result : SectionResult} (hnone : ∀ reads, modify (m.load reads) = none)
    (h : m.updateSessions modify io = (m', result)) :
    m' = m ∧ (result = .absent ∨ result = .cut false) := by
  cases io <;> simp only [Manager.updateSessions, hnone] at h <;> cases h <;> simp

theorem lookup_load_none (h : m.sessions.lookup sid = none) (reads : Bool) :
    (m.load reads).lookup sid = none := by
  cases reads with
  | true => exact h
  | false => rfl

theorem Inert.refl (m : Manager) : Inert sid m m :=
  ⟨id, Or.inr rfl, Or.inr rfl, Or.inr rfl, fun _ => id, rfl⟩

theorem Inert.trans {m'' : Manager} (h : Inert sid m m') (h' : Inert sid m' m'') :
    Inert sid m m'' where
  record := fun hnone => h'.record (h.record hnone)
  launcher := h'.launcher.elim Or.inl fun heq => heq ▸ h.launcher
  transport := h'.transport.elim Or.inl fun heq => heq ▸ h.transport
  observer := h'.observer.elim Or.inl fun heq => heq ▸ h.observer
  procs := fun pid halive => h.procs pid (h'.procs pid halive)
  nextLauncher := h'.nextLauncher.trans h.nextLauncher

/-- A section that gives the session no record. -/
theorem Inert.update {modify : Sessions → Option Sessions} {io : Io} {result : SectionResult}
    (h : m.updateSessions modify io = (m', result))
    (hmodify : ∀ reads sessions, modify (m.load reads) = some sessions →
      (m.load reads).lookup sid = none → sessions.lookup sid = none) : Inert sid m m' := by
  rcases Manager.updateSessions_cases h with rfl | ⟨reads, sessions, hsome, rfl⟩
  · exact .refl m'
  · exact ⟨fun hnone => hmodify reads sessions hsome (lookup_load_none hnone reads),
      Or.inr rfl, Or.inr rfl, Or.inr rfl, fun _ => id, rfl⟩

/-! ## Single changes -/

theorem inert_kill (m : Manager) (pid : ℕ) : Inert sid m (m.kill pid) := by
  unfold Manager.kill
  split
  · refine ⟨id, Or.inr rfl, Or.inr rfl, Or.inr rfl, fun other halive => ?_, rfl⟩
    by_cases hne : other = pid
    · simp [hne] at halive
    · simpa [Function.update_of_ne hne] using halive
  · exact .refl m

theorem inert_leave (m : Manager) (w : Worker) : Inert sid m (m.leave w) :=
  ⟨id, Or.inr rfl, Or.inr rfl, Or.inr rfl, fun _ => id, rfl⟩

theorem inert_setEntry (m : Manager) (other : SessionId) (ref : Option LockRef) :
    Inert sid m (m.setEntry other ref) :=
  ⟨id, Or.inr rfl, Or.inr rfl, Or.inr rfl, fun _ => id, rfl⟩

/-- An entry is dropped from a table. -/
theorem update_none (table : SessionId → Option ℕ) (other : SessionId) :
    Function.update table other none sid = none ∨
      Function.update table other none sid = table sid := by
  rw [Function.update_apply]
  split
  · exact Or.inl rfl
  · exact Or.inr rfl

theorem inert_popLauncher (m : Manager) (other : SessionId) : Inert sid m (m.popLauncher other) :=
  ⟨id, update_none m.launchers other, Or.inr rfl, Or.inr rfl, fun _ => id, rfl⟩

theorem inert_popTransport (m : Manager) (other : SessionId) :
    Inert sid m (m.popTransport other) :=
  ⟨id, Or.inr rfl, update_none m.transports other, Or.inr rfl, fun _ => id, rfl⟩

theorem inert_popObserver (m : Manager) (other : SessionId) : Inert sid m (m.popObserver other) :=
  ⟨id, Or.inr rfl, Or.inr rfl, update_none m.observers other, fun _ => id, rfl⟩

theorem inert_popHandles (m : Manager) (other : SessionId) : Inert sid m (m.popHandles other) :=
  (inert_popLauncher m other).trans
    ((inert_popTransport _ other).trans (inert_popObserver _ other))

/-! ## Stops -/

theorem inert_stopLook (m : Manager) (x : Stop) (reads : Bool) :
    Inert sid m (stopLook m x reads).1 := by
  unfold stopLook
  split
  · exact .refl m
  · exact (inert_popHandles m x.sid).trans (inert_setEntry _ _ _)

theorem inert_stopRemove (m : Manager) (x : Stop) (io : Io) :
    Inert sid m (stopRemove m x io).1 := by
  have hsave {m' : Manager} {result : SectionResult}
      (h : m.updateSessions (fun sessions => some (sessions.erase x.sid)) io = (m', result)) :
      Inert sid m m' := by
    refine .update h fun reads sessions hsome hnone => ?_
    obtain rfl := Option.some.inj hsome
    refine Option.eq_none_iff_forall_not_mem.mpr fun r hr => ?_
    exact absurd (hnone.symm.trans (lookup_of_lookup_erase hr)) (by simp)
  unfold stopRemove
  split
  · rename_i m₁ heq
    -- the sentinel is no handle
    have hdrop : Inert sid m₁ (m₁.dropSentinel x.sid) := by
      unfold Manager.dropSentinel
      split
      · exact inert_setEntry m₁ _ _
      · exact .refl m₁
    exact (hsave heq).trans (hdrop.trans
      ⟨id, Or.inr rfl, Or.inr rfl, Or.inr rfl, fun _ => id, rfl⟩)
  · rename_i heq
    exact hsave heq

theorem inert_stopStep {x : Stop} {o : Outcome} {r : Manager × Stop}
    (h : stopStep m x o = some r) : Inert sid m r.1 := by
  cases takes_of_stopStep h with
  | looks => exact inert_stopLook m x _
  | killed => exact inert_kill m _
  | killCancelled => exact inert_leave m _
  | removes => exact inert_stopRemove m x _
  | _ => exact .refl m

/-! ## Collections -/

theorem inert_gcDrop (m : Manager) (entry : GcEntry) : Inert sid m (gcDrop m entry) := by
  have hdrop (table : SessionId → Option ℕ) (seen : Option ℕ) :
      (if table entry.sid = seen then Function.update table entry.sid none else table) sid = none ∨
        (if table entry.sid = seen then Function.update table entry.sid none else table) sid =
          table sid := by
    split
    · exact update_none table entry.sid
    · exact Or.inr rfl
  exact ⟨id, hdrop m.launchers entry.launcher, hdrop m.transports entry.transport,
    hdrop m.observers entry.observer, fun _ => id, rfl⟩

theorem inert_gcRemove (m : Manager) (g : Gc) (io : Io) : Inert sid m (gcRemove m g io).1 := by
  refine .update (Prod.eta _).symm fun reads sessions hsome hnone => ?_
  obtain rfl := Option.some.inj hsome
  refine Option.eq_none_iff_forall_not_mem.mpr fun r hr => ?_
  exact absurd (hnone.symm.trans (lookup_of_lookup_foldl_erase hr)) (by simp)

theorem inert_gcStep {g : Gc} {o : Outcome} {r : Manager × Gc} (h : gcStep m g o = some r) :
    Inert sid m r.1 := by
  cases takes_of_gcStep h with
  | killed => exact inert_kill m _
  | killCancelled => exact inert_leave m _
  | drops => exact inert_gcDrop m _
  | removes => exact inert_gcRemove m g _
  | _ => exact .refl m

/-! ## Tool calls -/

theorem inert_touchSession {other : SessionId} {live : Bool} {io : Io} {result : SectionResult}
    (h : m.touchSession other live io = (m', result)) : Inert sid m m' := by
  refine .update h fun reads sessions hsome hnone => ?_
  obtain ⟨r, hr, rfl⟩ := Option.map_eq_some_iff.mp hsome
  -- the session that is touched has a record, and this one has none
  have hne : sid ≠ other := by
    rintro rfl
    exact absurd (hnone.symm.trans hr) (by simp)
  rwa [AList.lookup_insert_ne hne]

theorem inert_enterLock (m : Manager) (i : TaskId) (x : Tool) (other : SessionId)
    (ref : LockRef) : Inert sid m (enterLock m i x other ref).1 := by
  unfold enterLock
  split
  · exact .refl m
  · split <;> exact ⟨id, Or.inr rfl, Or.inr rfl, Or.inr rfl, fun _ => id, rfl⟩

theorem inert_afterTouch (m : Manager) (i : TaskId) (busy : SessionId → Bool) (x : Tool)
    (other : SessionId) (after : After) : Inert sid m (afterTouch m i busy x other after).1 := by
  cases after with
  | submit => exact .refl m
  | stay => exact .refl m
  | enter =>
    have hlock : Inert sid m (m.sessionLock other).1 := by
      unfold Manager.sessionLock
      split
      · exact .refl m
      · exact ⟨id, Or.inr rfl, Or.inr rfl, Or.inr rfl, fun _ => id, rfl⟩
    exact hlock.trans (inert_enterLock _ i x other _)

theorem inert_toolStep {i : TaskId} {busy : SessionId → Bool} {x : Tool} {e : ToolEvent}
    {r : Manager × Tool × Option SessionId} (h : toolStep m i busy x e = some r) :
    Inert sid m r.1 := by
  have hlock (n : ℕ) (l : SessionLock) : Inert sid m (m.setLock n l) :=
    ⟨id, Or.inr rfl, Or.inr rfl, Or.inr rfl, fun _ => id, rfl⟩
  cases takes_of_toolStep h with
  | touches htouch =>
    exact (inert_touchSession htouch).trans (inert_afterTouch _ i busy x _ _)
  | touchFails htouch => exact inert_touchSession htouch
  | leaves | granted | withdraws => exact hlock _ _
  | _ => exact .refl m

end Session
