import PpssppDfx.Session.Edits

/-!
# How far a start has come

A start saves its record, and then either returns or is torn down; a wedged attempt is
followed by another one, and a start that an exception has left does not return.

## Main definitions

* `Session.StartPhase.stage` — the stage that a start has reached
* `Session.StageStep` — what a step of a start does to it

## Main results

* `stageStep_startStep` — every step does only that
-/

set_option autoImplicit false

namespace Session

inductive Stage where
  /-- The record of the attempt has not been saved. -/
  | early
  /-- The record has been saved. -/
  | saved
  /-- The attempt is torn down, and another one may follow. -/
  | wedged
  /-- The start does not return. -/
  | doomed
  deriving DecidableEq

def StartPhase.stage : StartPhase → Stage
  | .spawning => .early
  | .persisting _ => .early
  | .probing => .saved
  | .markingConnected => .saved
  | .connecting => .saved
  | .binding => .saved
  | .stoppingHandles _ => .saved
  | .closingHandles _ => .saved
  | .gateReading => .saved
  | .gateProbing => .saved
  | .gateFolding => .saved
  | .returned => .saved
  | .tearingDown .wedge => .wedged
  | .closing .wedge _ => .wedged
  | .stoppingWedged .wedge _ => .wedged
  | .coolingDown => .wedged
  | _ => .doomed

variable {m : Manager} {x : Start} {e : StartEvent} {r : Manager × Start}

theorem stage_escape : (escape m x).2.phase.stage = .doomed := by
  unfold escape
  split
  · rfl
  · split <;> rfl

theorem stage_enterGate :
    (enterGate m x).phase.stage = .saved ∨ (enterGate m x).phase.stage = .wedged := by
  unfold enterGate
  split
  · split
    · exact Or.inr rfl
    · exact Or.inl rfl
  · exact Or.inl rfl

theorem stage_afterTeardown (why : Why) : (afterTeardown x why).phase.stage = .doomed ∨
    why = .wedge ∧ (afterTeardown x why).phase.stage = .wedged := by
  cases why with
  | failure => exact Or.inl rfl
  | wedge =>
    by_cases hbudget : x.hasBudget = true
    -- another attempt follows, or the budget is used up
    · exact Or.inr ⟨rfl, by simp [afterTeardown, hbudget, StartPhase.stage]⟩
    · exact Or.inl (by simp [afterTeardown, hbudget, StartPhase.stage])

theorem stage_stopPopped (why : Why) (launcher : Option ℕ) :
    (stopPopped x why launcher).phase.stage = .doomed ∨
      why = .wedge ∧ (stopPopped x why launcher).phase.stage = .wedged := by
  cases launcher with
  | none => exact stage_afterTeardown why
  | some n =>
    cases why with
    | failure => exact Or.inl rfl
    | wedge => exact Or.inr ⟨rfl, rfl⟩

/-- What a step of a start does to its stage. -/
structure StageStep (m : Manager) (x : Start) (e : StartEvent) (y : Start) : Prop where
  active : x.phase ≠ .returned
  early : y.phase.stage = .early → y.attempt = 0 →
    x.phase.stage = .early ∧ x.attempt = 0 ∧ x.edit m e = none
  saved : y.phase.stage = .saved →
    x.phase.stage = .saved ∨
      ∃ edit reads edited, x.edit m e = some (edit, .done reads) ∧
        edit.modify m (m.load reads) = some edited ∧ x.phase.stage = .early
  doomed : x.phase.stage = .doomed → y.phase.stage = .doomed
  cut : ∀ edit reads landed, x.edit m e = some (edit, .cutSaving reads landed) →
    (edit.modify m (m.load reads)).isSome = true → y.phase.stage = .doomed
  record : x.record.execCount = 0 → y.record.execCount = 0

/-- A step that ends in a doomed phase. -/
theorem StageStep.of_doomed {y : Start} (hactive : x.phase ≠ .returned)
    (hdoomed : y.phase.stage = .doomed) (hrecord : y.record.execCount = x.record.execCount) :
    StageStep m x e y where
  active := hactive
  early h := by rw [hdoomed] at h; exact nomatch h
  saved h := by rw [hdoomed] at h; exact nomatch h
  doomed _ := hdoomed
  cut _ _ _ _ _ := hdoomed
  record h := by rw [hrecord]; exact h

/-- A step between the phases in which the record has been saved, and which no cancellation
has left. -/
theorem StageStep.of_saved {y : Start} (hactive : x.phase ≠ .returned)
    (hsaved : x.phase.stage = .saved)
    (hcut : ∀ edit reads landed, x.edit m e = some (edit, .cutSaving reads landed) →
      (edit.modify m (m.load reads)).isSome = false)
    (hstage : y.phase.stage = .saved ∨ y.phase.stage = .wedged)
    (hrecord : y.record.execCount = x.record.execCount) :
    StageStep m x e y where
  active := hactive
  early h := by rcases hstage with hstage | hstage <;> (rw [hstage] at h; exact nomatch h)
  saved _ := Or.inl hsaved
  doomed h := by rw [hsaved] at h; exact nomatch h
  cut edit reads landed h hsome := by
    rw [hcut edit reads landed h] at hsome
    exact nomatch hsome
  record h := by rw [hrecord]; exact h

/-- A step of an attempt that is being torn down. -/
theorem StageStep.of_wedged {y : Start} {why : Why} (hactive : x.phase ≠ .returned)
    (hwhy : x.phase.stage = .doomed → why = .failure)
    (hnext : y.phase.stage = .doomed ∨ why = .wedge ∧ y.phase.stage = .wedged)
    (hedit : x.edit m e = none) (hrecord : y.record.execCount = x.record.execCount) :
    StageStep m x e y where
  active := hactive
  early h := by
    rcases hnext with hnext | ⟨-, hnext⟩ <;> (rw [hnext] at h; exact nomatch h)
  saved h := by
    rcases hnext with hnext | ⟨-, hnext⟩ <;> (rw [hnext] at h; exact nomatch h)
  doomed h := by
    rcases hnext with hnext | ⟨hwedge, -⟩
    · exact hnext
    · rw [hwhy h] at hwedge
      exact nomatch hwedge
  cut edit reads landed h := by rw [hedit] at h; exact nomatch h
  record h := by rw [hrecord]; exact h

theorem record_escape : (escape m x).2.record = x.record := by
  unfold escape
  split
  · rfl
  · split <;> rfl

theorem record_enterGate : (enterGate m x).record = x.record := by
  unfold enterGate
  split
  · split <;> rfl
  · rfl

theorem record_stopPopped (why : Why) (launcher : Option ℕ) :
    (stopPopped x why launcher).record = x.record := by
  cases launcher with
  | some n => rfl
  | none =>
    cases why with
    | failure => rfl
    | wedge =>
      simp only [stopPopped, afterTeardown]
      split <;> rfl

theorem record_afterTeardown (why : Why) : (afterTeardown x why).record = x.record :=
  record_stopPopped why none

/-- An exception leaves the attempt. -/
theorem StageStep.escape {m' : Manager} (hactive : x.phase ≠ .returned) :
    StageStep m x e (escape m' x).2 :=
  .of_doomed hactive stage_escape (congrArg Record.execCount record_escape)

/-- The handles of the attempt have been closed. -/
theorem StageStep.afterHandles {m' : Manager} {notFound : Bool}
    (hactive : x.phase ≠ .returned) (hsaved : x.phase.stage = .saved)
    (hedit : x.edit m e = none) : StageStep m x e (afterHandles m' x notFound).2 := by
  unfold Session.afterHandles
  split
  · exact .escape hactive
  · exact .of_saved hactive hsaved (fun _ _ _ h => by simp [hedit] at h) stage_enterGate
      (congrArg Record.execCount record_enterGate)

/-- An attempt that does not return is torn down because of another exception than a wedge. -/
theorem why_of_doomed {why : Why}
    (h : x.phase = .tearingDown why ∨ (∃ launcher, x.phase = .closing why launcher) ∨
      ∃ n, x.phase = .stoppingWedged why n) (hdoomed : x.phase.stage = .doomed) :
    why = .failure := by
  cases why with
  | failure => rfl
  | wedge =>
    rcases h with h | ⟨launcher, h⟩ | ⟨n, h⟩ <;> (rw [h] at hdoomed; exact nomatch hdoomed)

theorem StageStep.teardown {why : Why} (hphase : x.phase = .tearingDown why) :
    StageStep m x .returns (teardown m x why).2 := by
  have hactive : x.phase ≠ .returned := by simp [hphase]
  have hedit : x.edit m .returns = none := by simp [Start.edit, hphase]
  have hwhy := why_of_doomed (Or.inl hphase)
  unfold Session.teardown
  dsimp only
  split
  · refine .of_wedged hactive hwhy ?_ hedit rfl
    cases why with
    | failure => exact Or.inl rfl
    | wedge => exact Or.inr ⟨rfl, rfl⟩
  · exact .of_wedged hactive hwhy (stage_stopPopped why _) hedit
      (congrArg Record.execCount (record_stopPopped why _))

theorem StageStep.gateRead {reads : Bool} (hphase : x.phase = .gateReading) :
    StageStep m x (.reads reads) (gateRead m x reads).2 := by
  have hactive : x.phase ≠ .returned := by simp [hphase]
  unfold Session.gateRead
  split
  · exact .of_saved hactive (by rw [hphase]; rfl) (by simp [Start.edit, hphase]) (Or.inl rfl) rfl
  · exact .escape hactive

/-- A section that has saved was not cancelled. -/
theorem io_of_saved {modify : Sessions → Option Sessions} {io : Io} {m' : Manager}
    (h : m.updateSessions modify io = (m', .saved)) :
    ∃ reads edited, io = .done reads ∧ modify (m.load reads) = some edited := by
  cases io with
  | done reads =>
    rcases hmodify : modify (m.load reads) with _ | edited
    · simp [Manager.updateSessions, hmodify] at h
    · exact ⟨reads, edited, rfl, hmodify⟩
  | cutEarly => simp [Manager.updateSessions] at h
  | saveRaises reads =>
    rcases hmodify : modify (m.load reads) with _ | edited <;>
      simp [Manager.updateSessions, hmodify] at h
  | cutSaving reads landed =>
    rcases hmodify : modify (m.load reads) with _ | edited <;>
      simp [Manager.updateSessions, hmodify] at h

/-- A section that was cancelled in its save, and does not say so, had nothing to save. -/
theorem modify_of_not_cut {modify : Sessions → Option Sessions} {m' : Manager}
    {reads landed : Bool} {result : SectionResult}
    (h : m.updateSessions modify (.cutSaving reads landed) = (m', result))
    (hresult : ∀ opened, result ≠ .cut opened) : modify (m.load reads) = none := by
  rcases hmodify : modify (m.load reads) with _ | edited
  · rfl
  · simp only [Manager.updateSessions, hmodify] at h
    exact absurd (congrArg Prod.snd h).symm (hresult true)

theorem stageStep_persist {port : ℕ} {io : Io} (hphase : x.phase = .persisting port) :
    StageStep m x (.io io) (persist m x port io).2 := by
  have hactive : x.phase ≠ .returned := by simp [hphase]
  have hearly : x.phase.stage = .early := by rw [hphase]; rfl
  have hedit : x.edit m (.io io) = some (.persist x.sid (newRecord m x port), io) := by
    simp [Start.edit, hphase]
  unfold persist
  dsimp only
  split
  · rename_i heq
    obtain ⟨reads, edited, rfl, hmodify⟩ := io_of_saved heq
    refine ⟨hactive, fun h => (nomatch h), fun _ => Or.inr ?_, fun h => ?_, fun _ _ _ h => ?_,
      fun _ => rfl⟩
    · exact ⟨_, reads, edited, hedit, hmodify, hearly⟩
    · rw [hearly] at h
      exact nomatch h
    · simp [hedit] at h
  · exact .of_doomed hactive rfl rfl
  · exact .escape hactive

/-- A section of a start whose record has been saved. -/
theorem StageStep.of_section {y : Start} {edit : Edit} {io : Io} {m' : Manager}
    {result : SectionResult} (hactive : x.phase ≠ .returned) (hsaved : x.phase.stage = .saved)
    (hedit : x.edit m (.io io) = some (edit, io))
    (hsection : m.updateSessions (edit.modify m) io = (m', result))
    (hresult : ∀ opened, result ≠ .cut opened)
    (hstage : y.phase.stage = .saved ∨ y.phase.stage = .wedged)
    (hrecord : y.record.execCount = x.record.execCount) :
    StageStep m x (.io io) y := by
  refine .of_saved hactive hsaved (fun edit' reads landed h => ?_) hstage hrecord
  rw [hedit] at h
  obtain ⟨rfl, rfl⟩ := Prod.mk.inj (Option.some.inj h)
  rw [modify_of_not_cut hsection hresult]
  rfl

theorem stageStep_markConnected {io : Io} (hphase : x.phase = .markingConnected) :
    StageStep m x (.io io) (markConnected m x io).2 := by
  have hactive : x.phase ≠ .returned := by simp [hphase]
  have hsaved : x.phase.stage = .saved := by rw [hphase]; rfl
  have hedit : x.edit m (.io io) =
      some (.markConnected x.sid (x.record.withWsConnected true), io) := by
    simp [Start.edit, hphase]
  unfold markConnected
  dsimp only
  split
  · rename_i heq
    exact .of_section hactive hsaved hedit heq (by simp) (Or.inl rfl) rfl
  · rename_i heq
    exact .of_section hactive hsaved hedit heq (by simp) (Or.inl rfl) rfl
  · exact .escape hactive

theorem stageStep_bind {io : Io} (hphase : x.phase = .binding) :
    StageStep m x (.io io) (bind m x io).2 := by
  have hactive : x.phase ≠ .returned := by simp [hphase]
  have hsaved : x.phase.stage = .saved := by rw [hphase]; rfl
  have hedit : x.edit m (.io io) = some (.bind x.sid, io) := by simp [Start.edit, hphase]
  unfold bind
  split
  · rename_i heq
    exact .of_section hactive hsaved hedit heq (by simp) stage_enterGate
      (congrArg Record.execCount record_enterGate)
  · rename_i heq
    exact .of_section hactive hsaved hedit heq (by simp) (Or.inl rfl) rfl
  · rename_i heq
    exact .of_section hactive hsaved hedit heq (by simp) (Or.inl rfl) rfl
  · exact .escape hactive

theorem stageStep_fold {io : Io} (hphase : x.phase = .gateFolding) :
    StageStep m x (.io io) (fold m x io).2 := by
  have hactive : x.phase ≠ .returned := by simp [hphase]
  have hsaved : x.phase.stage = .saved := by rw [hphase]; rfl
  have hedit : x.edit m (.io io) = some (.fold x.sid x.attempt, io) := by
    simp [Start.edit, hphase]
  unfold fold
  split
  · rename_i heq
    exact .of_section hactive hsaved hedit heq (by simp) (Or.inl rfl) rfl
  · rename_i heq
    exact .of_section hactive hsaved hedit heq (by simp) (Or.inl rfl) rfl
  · exact .escape hactive

theorem stageStep_startStep (h : startStep m x e = some r) : StageStep m x e r.2 := by
  cases takes_of_startStep h with
  | spawned _ hphase =>
    have hactive : x.phase ≠ .returned := by simp [hphase]
    have hearly : x.phase.stage = .early := by rw [hphase]; rfl
    refine ⟨hactive, fun _ hattempt => ⟨hearly, hattempt, ?_⟩, fun h => (nomatch h), fun h => ?_,
      fun edit reads landed h => ?_, id⟩
    · simp [Start.edit, hphase]
    · rw [hearly] at h
      exact nomatch h
    · simp [Start.edit, hphase] at h
  | relaunches hphase =>
    have hactive : x.phase ≠ .returned := by simp [hphase]
    -- the attempt that begins is not the first one
    refine ⟨hactive, fun _ hattempt => absurd hattempt (Nat.succ_ne_zero _),
      fun h => (nomatch h), fun h => ?_, fun edit reads landed h => ?_, id⟩
    · rw [hphase] at h
      exact nomatch h
    · simp [Start.edit, hphase] at h
  | persists hphase => exact stageStep_persist hphase
  | marks hphase => exact stageStep_markConnected hphase
  | binds hphase => exact stageStep_bind hphase
  | folds hphase => exact stageStep_fold hphase
  | gateReads hphase => exact .gateRead hphase
  | tornDown hphase => exact .teardown hphase
  | _ hphase =>
    have hactive : x.phase ≠ .returned := by simp [hphase]
    -- Without a section: an exit, a step of a saved attempt or one of a teardown.
    first
      | exact .escape hactive
      | exact .of_doomed hactive rfl rfl
      | exact .of_saved hactive (by rw [hphase]; rfl) (by simp [Start.edit, hphase]) (Or.inl rfl) rfl
      | exact .of_saved hactive (by rw [hphase]; rfl) (by simp [Start.edit, hphase]) (Or.inr rfl) rfl
      | exact .of_saved hactive (by rw [hphase]; rfl) (by simp [Start.edit, hphase])
          stage_enterGate (congrArg Record.execCount record_enterGate)
      | exact .afterHandles hactive (by rw [hphase]; rfl) (by simp [Start.edit, hphase])
      | exact .of_wedged hactive (why_of_doomed (by simp [hphase])) (stage_stopPopped _ _)
          (by simp [Start.edit, hphase]) (congrArg Record.execCount (record_stopPopped _ _))
      | exact .of_wedged hactive (why_of_doomed (by simp [hphase])) (stage_afterTeardown _)
          (by simp [Start.edit, hphase]) (congrArg Record.execCount (record_afterTeardown _))

end Session
