import Mathlib.Data.List.Count
import Mathlib.Logic.Function.Basic
import PpssppDfx.Semantics.DropOldest
import PpssppDfx.Semantics.Machine

/-!
# Background jobs

The registry runs each background job in a task of its own and keeps the newest finished
jobs for late polls. A job is queued until its task takes its first step. A cancellation
before that step keeps the task from ever running the job, so `cancel()` records it as
finished; after that step the task records the end itself.

Batch ids are drawn at random; the model takes an id that was not drawn before. The record of
a job outlives its entry in the registry.

## Main definitions

* `Jobs.Registry` — `BatchJobRegistry` and the jobs that it created
* `Jobs.registry` — submissions, tasks and cancellations in any order
-/

set_option autoImplicit false

namespace Jobs

open Semantics Function

/-- How many finished jobs are kept. -/
def finishedJobRetention : ℕ := 32

inductive JobStatus where
  | queued
  | running
  | completed
  | failed
  | cancelled
  deriving DecidableEq

/-- `job.status in ("queued", "running")`. -/
def JobStatus.isActive : JobStatus → Bool
  | .queued => true
  | .running => true
  | _ => false

/-- `job.status in ("completed", "failed", "cancelled")`. -/
def JobStatus.isTerminal : JobStatus → Bool
  | .completed => true
  | .failed => true
  | .cancelled => true
  | _ => false

def JobStatus.text : JobStatus → String
  | .queued => "queued"
  | .running => "running"
  | .completed => "completed"
  | .failed => "failed"
  | .cancelled => "cancelled"

/-- The task of a job: created, inside `_run`, or over. -/
inductive TaskPhase where
  | created
  | entered
  | done
  deriving DecidableEq

/-- A `BatchJob` and its task. -/
structure BatchJob (ρ : Type*) where
  batchId : String
  sessionId : String
  totalSteps : ℕ
  status : JobStatus
  executed : ℕ
  result : Option ρ
  error : String
  task : TaskPhase
  /-- `task.cancel()` was called. -/
  cancelRequested : Bool
  deriving DecidableEq

/-- Why `cancel()` raises. -/
inductive CancelError where
  | keyError (batchId : String)
  | runtimeError (message : String)
  deriving DecidableEq

/-- A `BatchJobRegistry`. The jobs are objects; `jobs` lists the keys of the dictionary. -/
structure Registry (ρ : Type*) where
  objects : String → Option (BatchJob ρ)
  jobs : List String
  finishedOrder : List String
  /-- Every id that was submitted, and every id that was recorded as finished. -/
  submitted : List String
  finished : List String

/-- An empty registry. -/
def Registry.init (ρ : Type*) : Registry ρ where
  objects := fun _ => none
  jobs := []
  finishedOrder := []
  submitted := []
  finished := []

variable {ρ : Type*}

/-- `_evict_finished`, on the order of finished jobs and the keys. -/
def evictFinished : List String → List String → List String × List String
  | [], jobs => ([], jobs)
  | oldest :: rest, jobs =>
    if finishedJobRetention < (oldest :: rest).length then
      evictFinished rest (jobs.filter fun id => id != oldest)
    else (oldest :: rest, jobs)

namespace Registry

variable (r : Registry ρ)

/-- Change the record of one job. -/
def modifyJob (id : String) (f : BatchJob ρ → BatchJob ρ) : Registry ρ :=
  { r with objects := update r.objects id ((r.objects id).map f) }

/-- Append a job to the finished ones and evict. -/
def recordFinished (id : String) : Registry ρ :=
  { r with
    finishedOrder := (evictFinished (r.finishedOrder ++ [id]) r.jobs).1
    jobs := (evictFinished (r.finishedOrder ++ [id]) r.jobs).2
    finished := r.finished ++ [id] }

/-- `submit`. -/
def submit (id sessionId : String) (totalSteps : ℕ) : Registry ρ :=
  { r with
    objects := update r.objects id
      (some ⟨id, sessionId, totalSteps, .queued, 0, none, "", .created, false⟩)
    jobs := r.jobs ++ [id]
    submitted := r.submitted ++ [id] }

/-- `get`. -/
def get (id : String) : Option (BatchJob ρ) := if id ∈ r.jobs then r.objects id else none

/-- `list_jobs`. -/
def listJobs : List (BatchJob ρ) := r.jobs.filterMap r.objects

/-- `running_job_for_session`. -/
def runningJobForSession (sessionId : String) : Option String :=
  r.jobs.find? fun id =>
    (r.objects id).any fun job => job.sessionId == sessionId && job.status.isActive

/-- `cancel`. -/
def cancel (id : String) : Except CancelError (Registry ρ) :=
  match r.get id with
  | none => .error (.keyError id)
  | some job =>
    if job.status.isTerminal then
      .error (.runtimeError
        ("batch " ++ id ++ " already " ++ job.status.text ++ "; nothing to cancel"))
    else
      -- `task.cancel()` is called on a running job and on a queued one
      let requested := r.modifyJob id fun job => { job with cancelRequested := true }
      if job.status = .queued then
        .ok ((requested.modifyJob id fun job =>
          { job with status := .cancelled, error := "cancelled before start" }).recordFinished id)
      else .ok requested

end Registry

/-- How a runner ends. -/
inductive RunnerEnd (ρ : Type*) where
  | returns (result : ρ)
  | raises (message className : String)
  | cancelled

/-- The record of a job whose runner has ended. -/
def BatchJob.finish (job : BatchJob ρ) : RunnerEnd ρ → BatchJob ρ
  | .returns result =>
    { job with result := some result, status := .completed, task := .done }
  | .raises message className =>
    { job with
      status := .failed
      error := if message = "" then className else message
      task := .done }
  | .cancelled =>
    { job with status := .cancelled, error := "cancelled via ppsspp_batch_cancel", task := .done }

/-- What can happen to the registry next. -/
inductive JobEvent (ρ : Type*) where
  | submit (id sessionId : String) (totalSteps : ℕ)
  /-- The task takes its first step. -/
  | enters (id : String)
  /-- The runner reports progress. -/
  | progresses (id : String) (executed : ℕ)
  /-- The runner stores a result before it ends. -/
  | stores (id : String) (result : ρ)
  /-- The runner ends, and `_run` with it. -/
  | ends (id : String) (how : RunnerEnd ρ)
  | cancel (id : String)

/-- The event submits a job. -/
def JobEvent.isSubmit {ρ : Type*} : JobEvent ρ → Bool
  | .submit .. => true
  | _ => false

/-- One step. A call of `cancel()` that raises changes nothing. -/
def Registry.step (r : Registry ρ) : JobEvent ρ → Option (Registry ρ)
  | .submit id sessionId totalSteps =>
    if id ∈ r.submitted then none else some (r.submit id sessionId totalSteps)
  | .enters id =>
    match r.objects id with
    | some job =>
      if job.task = .created then
        -- A task that was cancelled before its first step ends without running `_run`.
        if job.cancelRequested then some (r.modifyJob id fun job => { job with task := .done })
        else
          some (r.modifyJob id fun job => { job with status := .running, task := .entered })
      else none
    | none => none
  | .progresses id executed =>
    match r.objects id with
    | some job =>
      if job.task = .entered then
        some (r.modifyJob id fun job => { job with executed := executed })
      else none
    | none => none
  | .stores id result =>
    match r.objects id with
    | some job =>
      if job.task = .entered then
        some (r.modifyJob id fun job => { job with result := some result })
      else none
    | none => none
  | .ends id how =>
    match r.objects id with
    | some job =>
      if job.task = .entered then
        some ((r.modifyJob id fun job => job.finish how).recordFinished id)
      else none
    | none => none
  | .cancel id =>
    match r.cancel id with
    | .ok r' => some r'
    | .error _ => some r

section Steps

variable {r t : Registry ρ} {id : String}

theorem modifyJob_modifyJob (r : Registry ρ) (id : String) (f g : BatchJob ρ → BatchJob ρ) :
    (r.modifyJob id f).modifyJob id g = r.modifyJob id fun job => g (f job) := by
  simp only [Registry.modifyJob, update_self, update_idem, Option.map_map]
  rfl

theorem get_eq_some_iff {job : BatchJob ρ} :
    r.get id = some job ↔ id ∈ r.jobs ∧ r.objects id = some job := by
  rw [Registry.get]
  split <;> simp [*]

/-- A cancellation that is accepted: a queued job is recorded as finished, and one that runs is
only asked to end. -/
theorem cancel_eq_ok (h : r.cancel id = .ok t) :
    ∃ job, r.objects id = some job ∧ job.status.isTerminal = false ∧
      (job.status = .queued ∧ t = (r.modifyJob id fun job =>
          { job with
            cancelRequested := true
            status := .cancelled
            error := "cancelled before start" }).recordFinished id ∨
        job.status ≠ .queued ∧
          t = r.modifyJob id fun job => { job with cancelRequested := true }) := by
  unfold Registry.cancel at h
  split at h
  · cases h
  next job hget =>
    refine ⟨job, (get_eq_some_iff.mp hget).2, ?_⟩
    split at h
    · cases h
    next hactive =>
      refine ⟨Bool.not_eq_true _ ▸ hactive, ?_⟩
      dsimp only at h
      split at h
      next hqueued =>
        obtain rfl := Except.ok.inj h
        exact Or.inl ⟨hqueued, by rw [modifyJob_modifyJob]⟩
      next hqueued =>
        obtain rfl := Except.ok.inj h
        exact Or.inr ⟨hqueued, rfl⟩

/-- What a step of the registry can do. -/
inductive Registry.Does (r : Registry ρ) : JobEvent ρ → Registry ρ → Prop
  | submits {id sessionId : String} {totalSteps : ℕ} (hfresh : id ∉ r.submitted) :
      Does r (.submit id sessionId totalSteps) (r.submit id sessionId totalSteps)
  | dropsOut {id : String} {job : BatchJob ρ} (hjob : r.objects id = some job)
      (htask : job.task = .created) (hcancelled : job.cancelRequested = true) :
      Does r (.enters id) (r.modifyJob id fun job => { job with task := .done })
  | begins {id : String} {job : BatchJob ρ} (hjob : r.objects id = some job)
      (htask : job.task = .created) (hcancelled : ¬ job.cancelRequested = true) :
      Does r (.enters id)
        (r.modifyJob id fun job => { job with status := .running, task := .entered })
  | progresses {id : String} {executed : ℕ} {job : BatchJob ρ} (hjob : r.objects id = some job)
      (htask : job.task = .entered) :
      Does r (.progresses id executed) (r.modifyJob id fun job => { job with executed := executed })
  | stores {id : String} {result : ρ} {job : BatchJob ρ} (hjob : r.objects id = some job)
      (htask : job.task = .entered) :
      Does r (.stores id result) (r.modifyJob id fun job => { job with result := some result })
  | ends {id : String} {how : RunnerEnd ρ} {job : BatchJob ρ} (hjob : r.objects id = some job)
      (htask : job.task = .entered) :
      Does r (.ends id how) ((r.modifyJob id fun job => job.finish how).recordFinished id)
  | cancels {id : String} {t : Registry ρ} (hcancel : r.cancel id = .ok t) :
      Does r (.cancel id) t
  | refuses {id : String} : Does r (.cancel id) r

theorem does_of_step {event : JobEvent ρ} (h : r.step event = some t) : r.Does event t := by
  cases event with
  | submit id sessionId totalSteps =>
    simp only [Registry.step] at h
    split at h
    · cases h
    next hfresh =>
      obtain rfl := Option.some.inj h
      exact .submits hfresh
  | enters id =>
    simp only [Registry.step] at h
    split at h
    next job hjob =>
      split at h
      next htask =>
        split at h
        next hcancelled =>
          obtain rfl := Option.some.inj h
          exact .dropsOut hjob htask hcancelled
        next hcancelled =>
          obtain rfl := Option.some.inj h
          exact .begins hjob htask hcancelled
      · cases h
    · cases h
  | progresses id executed =>
    simp only [Registry.step] at h
    split at h
    next job hjob =>
      split at h
      next htask =>
        obtain rfl := Option.some.inj h
        exact .progresses hjob htask
      · cases h
    · cases h
  | stores id result =>
    simp only [Registry.step] at h
    split at h
    next job hjob =>
      split at h
      next htask =>
        obtain rfl := Option.some.inj h
        exact .stores hjob htask
      · cases h
    · cases h
  | ends id how =>
    simp only [Registry.step] at h
    split at h
    next job hjob =>
      split at h
      next htask =>
        obtain rfl := Option.some.inj h
        exact .ends hjob htask
      · cases h
    · cases h
  | cancel id =>
    simp only [Registry.step] at h
    split at h
    next hcancel =>
      obtain rfl := Option.some.inj h
      exact .cancels hcancel
    · obtain rfl := Option.some.inj h
      exact .refuses

end Steps

/-- One registry with the tasks that it created. -/
def registry (ρ : Type*) : Machine (Registry ρ) (JobEvent ρ) := ⟨Registry.step⟩

end Jobs
