import PpssppDfx.Jobs.Lifecycle

/-!
# Background submissions

`ppsspp_batch_step` and `ppsspp_scan` submit background jobs. Both await the validation of
the session, and `ppsspp_scan` awaits the resolution of its id before; then each looks for an
active job of the session and submits its own without an await in between. One event of the
machine runs a call from an await to its next one.

## Main definitions

* `Jobs.background` — calls of both tools beside the registry

## Main results

* `oneActive_of_reachable` — no session has two active jobs
-/

set_option autoImplicit false

namespace Jobs

open Semantics Function

inductive BackgroundTool where
  | batchStep
  | scan
  deriving DecidableEq

/-- How a call ended. -/
inductive SubmitResult where
  | submitted (batchId : String)
  | busy (batchId : String)
  | sessionError
  | cancelled
  deriving DecidableEq

/-- The await a call stands at. -/
inductive SubmitPhase where
  /-- `ppsspp_scan` awaits `resolve_session_id`. -/
  | resolving
  /-- Awaiting `validate_session_alive` for this session. -/
  | validating (sessionId : String)
  | ended (result : SubmitResult)
  deriving DecidableEq

/-- One background call whose arguments were accepted. -/
structure SubmitCall where
  tool : BackgroundTool
  totalSteps : ℕ
  phase : SubmitPhase
  deriving DecidableEq

/-- The registry and the calls that submit to it. -/
structure Server (ρ : Type*) where
  registry : Registry ρ
  calls : ℕ → Option SubmitCall

/-- What can happen next. -/
inductive ServerEvent (ρ : Type*) where
  | callBatchStep (call : ℕ) (sessionId : String) (totalSteps : ℕ)
  | callScan (call totalSteps : ℕ)
  /-- `resolve_session_id` returns a session, or raises. -/
  | resolves (call : ℕ) (sessionId : Option String)
  /-- `validate_session_alive` returns or raises; `batchId` is the id drawn next. -/
  | validates (call : ℕ) (alive : Bool) (batchId : String)
  /-- The call is cancelled while it awaits. -/
  | cancels (call : ℕ)
  /-- A task takes a step, or `ppsspp_batch_cancel` is called. -/
  | job (event : JobEvent ρ)

variable {ρ : Type*}

namespace Server

variable (s : Server ρ)

/-- Set the record of one call. -/
def setCall (call : ℕ) (c : SubmitCall) : Server ρ :=
  { s with calls := update s.calls call (some c) }

/-- From the validation to the end: the check and the submission, in one slice. -/
def checkAndSubmit (call : ℕ) (c : SubmitCall) (sessionId batchId : String) :
    Option (Server ρ) :=
  match s.registry.runningJobForSession sessionId with
  | some existing => some (s.setCall call { c with phase := .ended (.busy existing) })
  | none =>
    (s.registry.step (.submit batchId sessionId c.totalSteps)).map fun registry =>
      { registry := registry
        calls := update s.calls call (some { c with phase := .ended (.submitted batchId) }) }

/-- One step. The registry takes no submission but those of the two tools. -/
def step : ServerEvent ρ → Option (Server ρ)
  | .callBatchStep call sessionId totalSteps =>
    match s.calls call with
    | none => some (s.setCall call ⟨.batchStep, totalSteps, .validating sessionId⟩)
    | some _ => none
  | .callScan call totalSteps =>
    match s.calls call with
    | none => some (s.setCall call ⟨.scan, totalSteps, .resolving⟩)
    | some _ => none
  | .resolves call sessionId =>
    match s.calls call with
    | some ⟨tool, totalSteps, .resolving⟩ =>
      match sessionId with
      | some sessionId => some (s.setCall call ⟨tool, totalSteps, .validating sessionId⟩)
      | none => some (s.setCall call ⟨tool, totalSteps, .ended .sessionError⟩)
    | _ => none
  | .validates call alive batchId =>
    match s.calls call with
    | some ⟨tool, totalSteps, .validating sessionId⟩ =>
      if alive then
        s.checkAndSubmit call ⟨tool, totalSteps, .validating sessionId⟩ sessionId batchId
      else some (s.setCall call ⟨tool, totalSteps, .ended .sessionError⟩)
    | _ => none
  | .cancels call =>
    match s.calls call with
    | some ⟨_, _, .ended _⟩ => none
    | some c => some (s.setCall call { c with phase := .ended .cancelled })
    | none => none
  | .job event =>
    if event.isSubmit then none
    else (s.registry.step event).map fun registry => { s with registry := registry }

end Server

/-- The registry and any number of calls of both tools. -/
def background (ρ : Type*) : Machine (Server ρ) (ServerEvent ρ) := ⟨Server.step⟩

/-- A server without jobs and calls. -/
def Server.init (ρ : Type*) : Server ρ := ⟨.init ρ, fun _ => none⟩

/-! ## One active job for each session -/

/-- The job is in the registry, queued or running, for this session. -/
def Registry.ActiveFor (r : Registry ρ) (sessionId id : String) : Prop :=
  ∃ job, r.get id = some job ∧ job.sessionId = sessionId ∧ job.status.isActive = true

/-- No session has two active jobs in the registry. -/
def OneActive (r : Registry ρ) : Prop :=
  ∀ sessionId id id', r.ActiveFor sessionId id → r.ActiveFor sessionId id' → id = id'

variable {r t : Registry ρ} {id : String} {job : BatchJob ρ}

theorem not_activeFor_of_runningJob {sessionId : String}
    (h : r.runningJobForSession sessionId = none) : ¬ r.ActiveFor sessionId id := by
  rintro ⟨job, hget, hsession, hactive⟩
  rw [Registry.get] at hget
  split at hget
  · rename_i hmem
    have hnone := List.find?_eq_none.mp h id hmem
    simp [hget, hsession, hactive] at hnone
  · cases hget

/-- Every job of the later registry was in the earlier one, for the same session. -/
def Inherits (r t : Registry ρ) : Prop :=
  ∀ id job', t.get id = some job' → ∃ job, r.get id = some job ∧ job.sessionId = job'.sessionId

theorem Inherits.refl (r : Registry ρ) : Inherits r r := fun _ job hjob => ⟨job, hjob, rfl⟩

theorem Inherits.trans {u : Registry ρ} (hrt : Inherits r t) (htu : Inherits t u) :
    Inherits r u := by
  intro id job'' hjob''
  obtain ⟨job', hjob', hsession'⟩ := htu id job'' hjob''
  obtain ⟨job, hjob, hsession⟩ := hrt id job' hjob'
  exact ⟨job, hjob, hsession.trans hsession'⟩

theorem inherits_modifyJob (r : Registry ρ) (id : String) {f : BatchJob ρ → BatchJob ρ}
    (hf : ∀ job, (f job).sessionId = job.sessionId) : Inherits r (r.modifyJob id f) := by
  intro i job' hjob'
  obtain ⟨hmem, hobject⟩ := get_eq_some_iff.mp hjob'
  simp only [Registry.modifyJob] at hmem hobject
  by_cases hi : i = id
  · subst hi
    rw [update_self] at hobject
    obtain ⟨job, hjob, rfl⟩ := Option.map_eq_some_iff.mp hobject
    exact ⟨job, get_eq_some_iff.mpr ⟨hmem, hjob⟩, (hf job).symm⟩
  · rw [update_of_ne hi] at hobject
    exact ⟨job', get_eq_some_iff.mpr ⟨hmem, hobject⟩, rfl⟩

theorem inherits_recordFinished (r : Registry ρ) (id : String) :
    Inherits r (r.recordFinished id) := by
  intro i job hjob
  obtain ⟨hmem, hobject⟩ := get_eq_some_iff.mp hjob
  simp only [Registry.recordFinished, evictFinished_eq] at hmem
  exact ⟨job, get_eq_some_iff.mpr ⟨(List.mem_filter.mp hmem).1, hobject⟩, rfl⟩

theorem inherits_cancel (h : r.cancel id = .ok t) : Inherits r t := by
  obtain ⟨job, -, -, ⟨-, rfl⟩ | ⟨-, rfl⟩⟩ := cancel_eq_ok h
  · exact (inherits_modifyJob r id fun _ => by rfl).trans (inherits_recordFinished _ id)
  · exact inherits_modifyJob r id fun _ => rfl

/-- No step but a submission adds a job. -/
theorem inherits_step {event : JobEvent ρ} (hsubmit : ¬ event.isSubmit = true)
    (h : r.step event = some t) : Inherits r t := by
  cases does_of_step h with
  | submits _ => exact absurd rfl hsubmit
  | dropsOut _ _ _ => exact inherits_modifyJob r _ fun _ => rfl
  | begins _ _ _ => exact inherits_modifyJob r _ fun _ => rfl
  | progresses _ _ => exact inherits_modifyJob r _ fun _ => rfl
  | stores _ _ => exact inherits_modifyJob r _ fun _ => rfl
  | @ends _ how _ _ _ =>
    have hsession : ∀ job : BatchJob ρ, (job.finish how).sessionId = job.sessionId := by
      intro job
      cases how <;> rfl
    exact (inherits_modifyJob r _ hsession).trans (inherits_recordFinished _ _)
  | cancels hcancel => exact inherits_cancel hcancel
  | refuses => exact Inherits.refl r

/-- A job that is active was active before. -/
theorem Inherits.activeFor (h : Inherits r t) (hsettled : Settled r t) {sessionId : String}
    (hactive : t.ActiveFor sessionId id) : r.ActiveFor sessionId id := by
  obtain ⟨job', hget', hsession, hstatus⟩ := hactive
  obtain ⟨job, hget, hsame⟩ := h id job' hget'
  refine ⟨job, hget, hsame.trans hsession, ?_⟩
  by_contra hdone
  rw [isActive_eq_not_isTerminal, Bool.not_eq_true, Bool.not_eq_false'] at hdone
  obtain ⟨job'', hjob'', hkeeps⟩ := hsettled id job (get_eq_some_iff.mp hget).2 hdone
  obtain rfl := Option.some.inj ((get_eq_some_iff.mp hget').2.symm.trans hjob'')
  rw [isActive_eq_not_isTerminal, hkeeps, hdone] at hstatus
  cases hstatus

/-- A job that is active after a submission is the new one, or was active before. -/
theorem activeFor_submit {newId sessionId sessionId' : String} {totalSteps : ℕ}
    (h : (r.submit newId sessionId totalSteps).ActiveFor sessionId' id) :
    id = newId ∧ sessionId' = sessionId ∨ r.ActiveFor sessionId' id := by
  obtain ⟨job, hget, hsession, hactive⟩ := h
  obtain ⟨hmem, hobject⟩ := get_eq_some_iff.mp hget
  simp only [Registry.submit, List.mem_append, List.mem_singleton] at hmem hobject
  by_cases hid : id = newId
  · subst hid
    rw [update_self] at hobject
    obtain rfl := Option.some.inj hobject
    exact Or.inl ⟨rfl, hsession.symm⟩
  · rw [update_of_ne hid] at hobject
    exact Or.inr ⟨job, get_eq_some_iff.mpr ⟨hmem.resolve_right hid, hobject⟩, hsession, hactive⟩

/-- A submission that found no active job of its session. -/
theorem OneActive.submit (h : OneActive r) {newId sessionId : String} {totalSteps : ℕ}
    (hnone : r.runningJobForSession sessionId = none) :
    OneActive (r.submit newId sessionId totalSteps) := by
  intro sessionId' id id' hid hid'
  -- two jobs are both new, both old, or the old one contradicts the check
  rcases activeFor_submit hid with ⟨rfl, rfl⟩ | hold
  · rcases activeFor_submit hid' with ⟨rfl, -⟩ | hold'
    · rfl
    · exact absurd hold' (not_activeFor_of_runningJob hnone)
  · rcases activeFor_submit hid' with ⟨rfl, rfl⟩ | hold'
    · exact absurd hold (not_activeFor_of_runningJob hnone)
    · exact h sessionId' id id' hold hold'

/-! ## Runs -/

/-- A step of the server leaves the registry alone, takes a step of a task or a cancellation,
or submits a job for a session without an active one. -/
theorem registry_step_cases {s u : Server ρ} {event : ServerEvent ρ}
    (hstep : s.step event = some u) :
    u.registry = s.registry ∨
      (∃ e, ¬ e.isSubmit = true ∧ s.registry.step e = some u.registry) ∨
      ∃ id sessionId totalSteps, s.registry.runningJobForSession sessionId = none ∧
        s.registry.step (.submit id sessionId totalSteps) = some u.registry := by
  -- only the slice behind the validation and the tasks touch the registry
  cases event with
  | callBatchStep call sessionId totalSteps =>
    simp only [Server.step] at hstep
    split at hstep
    · obtain rfl := Option.some.inj hstep
      exact Or.inl rfl
    · cases hstep
  | callScan call totalSteps =>
    simp only [Server.step] at hstep
    split at hstep
    · obtain rfl := Option.some.inj hstep
      exact Or.inl rfl
    · cases hstep
  | resolves call sessionId =>
    simp only [Server.step] at hstep
    split at hstep
    · split at hstep <;> obtain rfl := Option.some.inj hstep <;> exact Or.inl rfl
    · cases hstep
  | validates call alive batchId =>
    simp only [Server.step] at hstep
    split at hstep
    · split at hstep
      · unfold Server.checkAndSubmit at hstep
        split at hstep
        · obtain rfl := Option.some.inj hstep
          exact Or.inl rfl
        · rename_i hnone
          obtain ⟨registry, hsubmit, rfl⟩ := Option.map_eq_some_iff.mp hstep
          exact Or.inr (Or.inr ⟨_, _, _, hnone, hsubmit⟩)
      · obtain rfl := Option.some.inj hstep
        exact Or.inl rfl
    · cases hstep
  | cancels call =>
    simp only [Server.step] at hstep
    split at hstep
    · cases hstep
    · obtain rfl := Option.some.inj hstep
      exact Or.inl rfl
    · cases hstep
  | job event =>
    simp only [Server.step] at hstep
    split at hstep
    · cases hstep
    · rename_i hsubmit
      obtain ⟨registry, hjob, rfl⟩ := Option.map_eq_some_iff.mp hstep
      exact Or.inr (Or.inl ⟨event, hsubmit, hjob⟩)

theorem oneActive_step {s u : Server ρ} {event : ServerEvent ρ} (hkept : Kept s.registry)
    (h : OneActive s.registry) (hstep : s.step event = some u) :
    Kept u.registry ∧ OneActive u.registry := by
  rcases registry_step_cases hstep with hsame | ⟨e, hother, hjob⟩ |
    ⟨id, sessionId, totalSteps, hnone, hsubmit⟩
  · rw [hsame]
    exact ⟨hkept, h⟩
  -- no job is added, and none that has finished becomes active again
  · obtain ⟨hnext, hsettled⟩ := hkept.step hjob
    have hinherits := inherits_step hother hjob
    exact ⟨hnext, fun sessionId id id' hid hid' => h sessionId id id'
      (hinherits.activeFor hsettled hid) (hinherits.activeFor hsettled hid')⟩
  · refine ⟨(hkept.step hsubmit).1, ?_⟩
    simp only [Registry.step] at hsubmit
    split at hsubmit
    · cases hsubmit
    · rw [← Option.some.inj hsubmit]
      exact h.submit hnone

theorem oneActive_of_reachable {s : Server ρ} (h : (background ρ).Reachable (.init ρ) s) :
    OneActive s.registry := by
  have hinit : OneActive (Registry.init ρ) := by
    rintro _ _ _ ⟨job, hget, -⟩
    cases hget
  have hboth : Kept s.registry ∧ OneActive s.registry :=
    Machine.Reachable.invariant (P := fun s => Kept s.registry ∧ OneActive s.registry)
      ⟨kept_init, hinit⟩ (fun _ _ _ hold hstep => oneActive_step hold.1 hold.2 hstep) h
  exact hboth.2

/-- A scan is submitted between the call and the submission of a batch for the session. -/
def overlappingCalls : List (ServerEvent Unit) :=
  [.callBatchStep 0 "s" 3, .callScan 1 4, .resolves 1 (some "s"), .validates 1 true "a",
   .validates 0 true "b"]

theorem oneActive_overlappingCalls :
    ∃ s : Server Unit,
      s.calls 0 = some ⟨.batchStep, 3, .ended (.busy "a")⟩ ∧ OneActive s.registry := by
  have hends : ((background Unit).run (.init Unit) overlappingCalls).any
      (fun s => decide (s.calls 0 = some ⟨.batchStep, 3, .ended (.busy "a")⟩)) = true := by
    decide +kernel
  obtain ⟨s, hreach, htest⟩ := Machine.exists_reachable_of_run _ hends
  exact ⟨s, of_decide_eq_true htest, oneActive_of_reachable hreach⟩

end Jobs
