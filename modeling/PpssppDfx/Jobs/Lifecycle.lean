import Mathlib.Data.List.Nodup
import PpssppDfx.Jobs.Registry

/-!
# The life of a background job

A finished job is recorded once, and the oldest records make room for new ones. The record of
a cancellation before the first step and the record that a task writes at its end exclude each
other, because a task that was cancelled before its first step never reaches its end.

## Main results

* `registry_lifecycle` — what a run of the registry keeps
-/

set_option autoImplicit false

namespace Jobs

open Semantics Function

variable {ρ : Type*} {r t : Registry ρ} {id : String} {job : BatchJob ρ}

/-! ## Eviction -/

/-- Eviction keeps the newest finished jobs, and the keys of all jobs but the oldest of
them. -/
theorem evictFinished_eq (order jobs : List String) :
    evictFinished order jobs = (order.rtake finishedJobRetention,
      jobs.filter fun id => decide (id ∉ order.take (order.length - finishedJobRetention))) := by
  -- each round drops the oldest job while there are too many
  induction order generalizing jobs with
  | nil => simp [evictFinished]
  | cons oldest rest ih =>
    rw [evictFinished]
    split
    · rename_i hlong
      rw [List.length_cons] at hlong
      have hcount : (oldest :: rest).length - finishedJobRetention =
          (rest.length - finishedJobRetention) + 1 := by
        rw [List.length_cons]
        omega
      rw [ih, List.rtake, List.rtake, hcount, List.drop_succ_cons, List.take_succ_cons,
        List.filter_filter]
      congr 1
      refine List.filter_congr fun id _ => ?_
      by_cases hid : id = oldest <;> simp [hid]
    · rename_i hshort
      have hle : (oldest :: rest).length ≤ finishedJobRetention := by omega
      rw [rtake_of_length_le hle, Nat.sub_eq_zero_of_le hle]
      simp

/-! ## What a registry keeps -/

/-- The status of a job says where its task stands. -/
def BatchJob.Consistent (job : BatchJob ρ) : Prop :=
  match job.task with
  | .created => job.status = if job.cancelRequested then .cancelled else .queued
  | .entered => job.status = .running
  | .done => job.status.isTerminal = true

/-- A job that has not finished is queued until its task takes its first step. -/
theorem BatchJob.Consistent.queued (h : job.Consistent) (htask : job.task = .created)
    (hactive : job.status.isTerminal = false) : job.status = .queued := by
  simp only [BatchJob.Consistent, htask] at h
  by_cases hcancelled : job.cancelRequested = true
  · rw [if_pos hcancelled] at h
    rw [h] at hactive
    cases hactive
  · rwa [if_neg hcancelled] at h

/-- The job has finished. -/
def Registry.Terminal (r : Registry ρ) (id : String) : Prop :=
  ∃ job, r.objects id = some job ∧ job.status.isTerminal = true

/-- The finished jobs that were dropped. -/
def Registry.dropped (r : Registry ρ) : List String :=
  r.finished.take (r.finished.length - finishedJobRetention)

/-- What every step of the registry keeps. -/
structure Kept (r : Registry ρ) : Prop where
  submitted_nodup : r.submitted.Nodup
  known : ∀ id, id ∈ r.submitted ↔ ∃ job, r.objects id = some job
  finished_nodup : r.finished.Nodup
  finished_iff : ∀ id, id ∈ r.finished ↔ r.Terminal id
  order : r.finishedOrder = r.finished.rtake finishedJobRetention
  jobs : r.jobs = r.submitted.filter fun id => decide (id ∉ r.dropped)
  consistent : ∀ id job, r.objects id = some job → job.Consistent
  named : ∀ id job, r.objects id = some job → job.batchId = id

theorem kept_init : Kept (Registry.init ρ) where
  submitted_nodup := List.nodup_nil
  known := fun id => by simp [Registry.init]
  finished_nodup := List.nodup_nil
  finished_iff := fun id => by simp [Registry.init, Registry.Terminal]
  order := rfl
  jobs := rfl
  consistent := fun _ _ hjob => by cases hjob
  named := fun _ _ hjob => by cases hjob

/-- A new job is queued and not finished. -/
theorem Kept.submit (h : Kept r) (hfresh : id ∉ r.submitted) (sessionId : String)
    (totalSteps : ℕ) : Kept (r.submit id sessionId totalSteps) := by
  have hnone : r.objects id = none := by
    cases hjob : r.objects id with
    | none => rfl
    | some job => exact absurd ((h.known id).mpr ⟨job, hjob⟩) hfresh
  have hunfinished : id ∉ r.finished := by
    intro hmem
    obtain ⟨job, hjob, -⟩ := (h.finished_iff id).mp hmem
    rw [hnone] at hjob
    cases hjob
  refine ⟨?_, fun i => ?_, h.finished_nodup, fun i => ?_, h.order, ?_, fun i job hjob => ?_,
    fun i job hjob => ?_⟩
  · exact h.submitted_nodup.append (List.nodup_singleton _) (List.disjoint_singleton.mpr hfresh)
  · by_cases hi : i = id
    · subst hi
      simp [Registry.submit]
    · simp [Registry.submit, hi, h.known i]
  · by_cases hi : i = id
    · subst hi
      simp [Registry.submit, Registry.Terminal, hunfinished, JobStatus.isTerminal]
    · simp [Registry.submit, Registry.Terminal, hi, h.finished_iff i]
  · have hkept : id ∉ r.dropped := fun hmem => hunfinished (List.mem_of_mem_take hmem)
    have hdropped : (r.submit id sessionId totalSteps).dropped = r.dropped := rfl
    rw [hdropped]
    simp only [Registry.submit, List.filter_append, h.jobs]
    simp [hkept]
  · simp only [Registry.submit] at hjob
    by_cases hi : i = id
    · subst hi
      rw [update_self] at hjob
      obtain rfl := Option.some.inj hjob
      rfl
    · rw [update_of_ne hi] at hjob
      exact h.consistent i job hjob
  · simp only [Registry.submit] at hjob
    by_cases hi : i = id
    · subst hi
      rw [update_self] at hjob
      obtain rfl := Option.some.inj hjob
      rfl
    · rw [update_of_ne hi] at hjob
      exact h.named i job hjob

/-- A job that is changed is still known, and no other job changes. -/
theorem objects_modifyJob {f : BatchJob ρ → BatchJob ρ} (hjob : r.objects id = some job) :
    (r.modifyJob id f).objects = update r.objects id (some (f job)) := by
  rw [Registry.modifyJob, hjob, Option.map_some]

theorem Kept.known_modifyJob (h : Kept r) {f : BatchJob ρ → BatchJob ρ}
    (hjob : r.objects id = some job) (i : String) :
    i ∈ r.submitted ↔ ∃ job, (r.modifyJob id f).objects i = some job := by
  rw [objects_modifyJob hjob, h.known i]
  by_cases hi : i = id
  · subst hi
    simp [hjob]
  · simp [hi]

theorem Kept.consistent_modifyJob (h : Kept r) {f : BatchJob ρ → BatchJob ρ}
    (hjob : r.objects id = some job) (hf : (f job).Consistent) (i : String) (job' : BatchJob ρ)
    (hjob' : (r.modifyJob id f).objects i = some job') : job'.Consistent := by
  rw [objects_modifyJob hjob] at hjob'
  by_cases hi : i = id
  · subst hi
    rw [update_self] at hjob'
    obtain rfl := Option.some.inj hjob'
    exact hf
  · rw [update_of_ne hi] at hjob'
    exact h.consistent i job' hjob'

theorem Kept.named_modifyJob (h : Kept r) {f : BatchJob ρ → BatchJob ρ}
    (hjob : r.objects id = some job) (hname : (f job).batchId = job.batchId) (i : String)
    (job' : BatchJob ρ) (hjob' : (r.modifyJob id f).objects i = some job') :
    job'.batchId = i := by
  rw [objects_modifyJob hjob] at hjob'
  by_cases hi : i = id
  · subst hi
    rw [update_self] at hjob'
    obtain rfl := Option.some.inj hjob'
    exact hname.trans (h.named i job hjob)
  · rw [update_of_ne hi] at hjob'
    exact h.named i job' hjob'

/-- A change that neither finishes a job nor reopens one. -/
theorem Kept.modifyJob (h : Kept r) {f : BatchJob ρ → BatchJob ρ}
    (hjob : r.objects id = some job) (hname : (f job).batchId = job.batchId)
    (hf : (f job).Consistent) (hstatus : (f job).status.isTerminal = job.status.isTerminal) :
    Kept (r.modifyJob id f) := by
  refine ⟨h.submitted_nodup, h.known_modifyJob hjob, h.finished_nodup, fun i => ?_, h.order,
    h.jobs, h.consistent_modifyJob hjob hf, h.named_modifyJob hjob hname⟩
  rw [show (r.modifyJob id f).finished = r.finished from rfl, h.finished_iff i]
  simp only [Registry.Terminal, objects_modifyJob hjob]
  by_cases hi : i = id
  · subst hi
    simp [hjob, hstatus]
  · simp [hi]

/-- A job that was active finishes and is recorded. -/
theorem Kept.record (h : Kept r) {f : BatchJob ρ → BatchJob ρ} (hjob : r.objects id = some job)
    (hactive : job.status.isTerminal = false) (hname : (f job).batchId = job.batchId)
    (hf : (f job).Consistent) (hterminal : (f job).status.isTerminal = true) :
    Kept ((r.modifyJob id f).recordFinished id) := by
  have hunfinished : id ∉ r.finished := by
    intro hmem
    obtain ⟨job', hjob', hdone⟩ := (h.finished_iff id).mp hmem
    obtain rfl := Option.some.inj (hjob.symm.trans hjob')
    rw [hactive] at hdone
    cases hdone
  refine ⟨h.submitted_nodup, h.known_modifyJob hjob, ?_, fun i => ?_, ?_, ?_,
    h.consistent_modifyJob hjob hf, h.named_modifyJob hjob hname⟩
  · exact h.finished_nodup.append (List.nodup_singleton _)
      (List.disjoint_singleton.mpr hunfinished)
  · simp only [Registry.recordFinished, Registry.modifyJob, Registry.Terminal, hjob,
      Option.map_some, List.mem_append, List.mem_singleton]
    by_cases hi : i = id
    · subst hi
      simp [hterminal]
    · simp [hi, h.finished_iff i, Registry.Terminal]
  · simp only [Registry.recordFinished, Registry.modifyJob, evictFinished_eq, h.order]
    exact rtake_rtake_append _ _
  · have hdropped : ((r.modifyJob id f).recordFinished id).dropped = r.dropped ++
        (r.finishedOrder ++ [id]).take
          ((r.finishedOrder ++ [id]).length - finishedJobRetention) := by
      rw [h.order]
      exact take_append_rtake r.finished [id]
    rw [hdropped]
    simp only [Registry.recordFinished, Registry.modifyJob, evictFinished_eq, h.jobs,
      List.filter_filter]
    refine List.filter_congr fun i _ => ?_
    simp [and_comm]

/-! ## One step -/

/-- The jobs that have finished keep their status. -/
def Settled (r t : Registry ρ) : Prop :=
  ∀ id job, r.objects id = some job → job.status.isTerminal = true →
    ∃ job', t.objects id = some job' ∧ job'.status = job.status

theorem Settled.refl (r : Registry ρ) : Settled r r := fun _ job hjob _ => ⟨job, hjob, rfl⟩

theorem Settled.trans {u : Registry ρ} (hrt : Settled r t) (htu : Settled t u) :
    Settled r u := by
  intro id job hjob hdone
  obtain ⟨job', hjob', hstatus'⟩ := hrt id job hjob hdone
  obtain ⟨job'', hjob'', hstatus''⟩ := htu id job' hjob' (hstatus' ▸ hdone)
  exact ⟨job'', hjob'', hstatus''.trans hstatus'⟩

/-- A change of a job that keeps its status, or of one that has not finished. -/
theorem settled_modifyJob {f : BatchJob ρ → BatchJob ρ} (hjob : r.objects id = some job)
    (hf : job.status.isTerminal = true → (f job).status = job.status) :
    Settled r (r.modifyJob id f) := by
  intro i job' hjob' hdone
  rw [objects_modifyJob hjob]
  by_cases hi : i = id
  · subst hi
    obtain rfl := Option.some.inj (hjob.symm.trans hjob')
    exact ⟨f job, update_self .., hf hdone⟩
  · exact ⟨job', (update_of_ne hi ..).trans hjob', rfl⟩

theorem settled_recordFinished (r : Registry ρ) (id : String) :
    Settled r (r.recordFinished id) := fun _ job hjob _ => ⟨job, hjob, rfl⟩

/-- A task inside `_run` belongs to a running job. -/
theorem Kept.running_of_entered (h : Kept r) (hjob : r.objects id = some job)
    (htask : job.task = .entered) : job.status = .running := by
  have hconsistent := h.consistent id job hjob
  rw [BatchJob.Consistent, htask] at hconsistent
  exact hconsistent

/-- The first step of a task: `_run` begins, or was cancelled before. -/
theorem Kept.enter (h : Kept r) (hjob : r.objects id = some job) (htask : job.task = .created) :
    if job.cancelRequested then
      Kept (r.modifyJob id fun job => { job with task := .done }) ∧
        Settled r (r.modifyJob id fun job => { job with task := .done })
    else
      Kept (r.modifyJob id fun job => { job with status := .running, task := .entered }) ∧
        Settled r
          (r.modifyJob id fun job => { job with status := .running, task := .entered }) := by
  have hconsistent := h.consistent id job hjob
  rw [BatchJob.Consistent, htask] at hconsistent
  split
  · rename_i hcancelled
    have hstatus : job.status = .cancelled := by simpa [hcancelled] using hconsistent
    refine ⟨h.modifyJob hjob rfl ?_ rfl, settled_modifyJob hjob fun _ => rfl⟩
    simp [BatchJob.Consistent, hstatus, JobStatus.isTerminal]
  · rename_i hcancelled
    have hstatus : job.status = .queued := by simpa [hcancelled] using hconsistent
    refine ⟨h.modifyJob hjob rfl rfl ?_, settled_modifyJob hjob fun hdone => ?_⟩
    · simp [hstatus, JobStatus.isTerminal]
    · simp [hstatus, JobStatus.isTerminal] at hdone

/-- A runner that ends. -/
theorem Kept.finish (h : Kept r) (hjob : r.objects id = some job) (htask : job.task = .entered)
    (how : RunnerEnd ρ) :
    Kept ((r.modifyJob id fun job => job.finish how).recordFinished id) ∧
      Settled r ((r.modifyJob id fun job => job.finish how).recordFinished id) := by
  have hstatus := h.running_of_entered hjob htask
  have hactive : job.status.isTerminal = false := by rw [hstatus]; rfl
  have hterminal : (job.finish how).status.isTerminal = true := by cases how <;> rfl
  have hconsistent : (job.finish how).Consistent := by cases how <;> rfl
  have hname : (job.finish how).batchId = job.batchId := by cases how <;> rfl
  refine ⟨h.record hjob hactive hname hconsistent hterminal,
    (settled_modifyJob hjob fun hdone => ?_).trans (settled_recordFinished _ _)⟩
  rw [hactive] at hdone
  cases hdone

/-- A cancellation: a queued job is recorded at once, a running one only asked to end. -/
theorem Kept.cancel (h : Kept r) (hcancel : r.cancel id = .ok t) : Kept t ∧ Settled r t := by
  obtain ⟨job, hjob, hactive, ⟨hqueued, rfl⟩ | ⟨hqueued, rfl⟩⟩ := cancel_eq_ok hcancel
  · have hconsistent := h.consistent id job hjob
    -- a queued job has not taken its first step, so only `cancel()` records its end
    have htask : job.task = .created := by
      cases htask : job.task with
      | created => rfl
      | entered => simp [BatchJob.Consistent, htask, hqueued] at hconsistent
      | done => simp [BatchJob.Consistent, htask, hqueued, JobStatus.isTerminal] at hconsistent
    refine ⟨h.record hjob hactive rfl (by simp [BatchJob.Consistent, htask]) rfl,
      (settled_modifyJob hjob fun hdone => ?_).trans (settled_recordFinished _ _)⟩
    rw [hactive] at hdone
    cases hdone
  · have hconsistent := h.consistent id job hjob
    refine ⟨h.modifyJob hjob rfl ?_ rfl, settled_modifyJob hjob fun _ => rfl⟩
    cases htask : job.task with
    | created => exact absurd (hconsistent.queued htask hactive) hqueued
    | entered => simpa [BatchJob.Consistent, htask] using hconsistent
    | done => simpa [BatchJob.Consistent, htask] using hconsistent

/-- A change inside `_run` that keeps the status and the task. -/
theorem Kept.whileRunning (h : Kept r) {f : BatchJob ρ → BatchJob ρ}
    (hjob : r.objects id = some job) (htask : job.task = .entered)
    (hname : (f job).batchId = job.batchId) (hstatus : (f job).status = job.status)
    (htask' : (f job).task = job.task) :
    Kept (r.modifyJob id f) ∧ Settled r (r.modifyJob id f) := by
  refine ⟨h.modifyJob hjob hname ?_ (by rw [hstatus]), settled_modifyJob hjob fun _ => hstatus⟩
  rw [BatchJob.Consistent, htask', htask]
  exact hstatus.trans (h.running_of_entered hjob htask)

theorem Kept.step (h : Kept r) {event : JobEvent ρ} (hstep : r.step event = some t) :
    Kept t ∧ Settled r t := by
  -- only a cancellation of a queued job and the end of a runner finish a job
  cases does_of_step hstep with
  | @submits id sessionId totalSteps hfresh =>
    refine ⟨h.submit hfresh sessionId totalSteps, fun i job hjob _ => ⟨job, ?_, rfl⟩⟩
    have hi : i ≠ id := by
      rintro rfl
      exact hfresh ((h.known i).mpr ⟨job, hjob⟩)
    exact (update_of_ne hi ..).trans hjob
  | dropsOut hjob htask hcancelled => simpa only [if_pos hcancelled] using h.enter hjob htask
  | begins hjob htask hcancelled => simpa only [if_neg hcancelled] using h.enter hjob htask
  | progresses hjob htask => exact h.whileRunning hjob htask rfl rfl rfl
  | stores hjob htask => exact h.whileRunning hjob htask rfl rfl rfl
  | ends hjob htask => exact h.finish hjob htask _
  | cancels hcancel => exact h.cancel hcancel
  | refuses => exact ⟨h, Settled.refl r⟩

/-! ## Runs -/

theorem kept_of_reachable (h : (registry ρ).Reachable r t) (hr : Kept r) :
    Kept t ∧ Settled r t :=
  Machine.Reachable.invariant (P := fun t => Kept t ∧ Settled r t) ⟨hr, Settled.refl r⟩
    (fun _ _ _ hold hstep =>
      have hnext := hold.1.step hstep
      ⟨hnext.1, hold.2.trans hnext.2⟩) h

/-- What the registry holds in every state. -/
structure Orderly (r : Registry ρ) : Prop where
  /-- The jobs that were recorded are those that have finished. -/
  recorded : ∀ id, id ∈ r.finished ↔ r.Terminal id
  /-- A retained job that has finished occurs once in the finished order. -/
  once : ∀ id ∈ r.jobs, r.Terminal id → r.finishedOrder.count id = 1
  /-- At most 32 of them are retained. -/
  bounded : ∀ l : List String, l.Sublist r.jobs → (∀ id ∈ l, r.Terminal id) →
    l.length ≤ finishedJobRetention
  /-- The jobs that were dropped are those that finished before the newest 32. -/
  oldest : r.finished = r.dropped ++ r.finishedOrder ∧
    ∀ id ∈ r.submitted, id ∉ r.jobs ↔ id ∈ r.dropped
  /-- A job that has not finished is retained. -/
  active : ∀ id job, r.objects id = some job → job.status.isActive = true → id ∈ r.jobs
  /-- The listing has the jobs that are retained and no others, in the order of their
  submission, -/
  listed : r.listJobs.map BatchJob.batchId = r.submitted.filter fun id => (r.get id).isSome
  /-- as they stand. -/
  current : ∀ job, job ∈ r.listJobs ↔ r.get job.batchId = some job

theorem isActive_eq_not_isTerminal (status : JobStatus) :
    status.isActive = !status.isTerminal := by
  cases status <;> rfl

/-- The finished jobs that are retained are those in the finished order. -/
theorem Kept.mem_order (h : Kept r) (hmem : id ∈ r.jobs) (hterminal : r.Terminal id) :
    id ∈ r.finishedOrder := by
  rw [h.jobs, List.mem_filter, decide_eq_true_eq] at hmem
  have hfinished := (h.finished_iff id).mpr hterminal
  rw [← List.take_append_drop (r.finished.length - finishedJobRetention) r.finished] at hfinished
  rw [h.order]
  exact (List.mem_append.mp hfinished).resolve_left hmem.2

/-- The retained jobs are those that were submitted and not dropped. -/
theorem Kept.isSome_get (h : Kept r) (hmem : id ∈ r.submitted) :
    (r.get id).isSome = decide (id ∉ r.dropped) := by
  obtain ⟨job, hjob⟩ := (h.known id).mp hmem
  by_cases hdropped : id ∈ r.dropped <;>
    simp [Registry.get, h.jobs, List.mem_filter, hmem, hjob, hdropped]

theorem Kept.map_batchId_listJobs (h : Kept r) :
    r.listJobs.map BatchJob.batchId = r.submitted.filter fun id => (r.get id).isSome := by
  have hobject (id : String) (hmem : id ∈ r.jobs) :
      (r.objects id).map BatchJob.batchId = some id := by
    rw [h.jobs, List.mem_filter] at hmem
    obtain ⟨job, hjob⟩ := (h.known id).mp hmem.1
    rw [hjob, Option.map_some, h.named id job hjob]
  calc r.listJobs.map BatchJob.batchId
      = r.jobs.filterMap fun id => (r.objects id).map BatchJob.batchId := List.map_filterMap
    _ = r.jobs.filterMap some := List.filterMap_congr hobject
    _ = r.jobs := List.filterMap_some
    _ = r.submitted.filter fun id => (r.get id).isSome := by
      rw [h.jobs]
      exact List.filter_congr fun id hmem => (h.isSome_get hmem).symm

theorem Kept.mem_listJobs (h : Kept r) : job ∈ r.listJobs ↔ r.get job.batchId = some job := by
  rw [Registry.listJobs, List.mem_filterMap, get_eq_some_iff]
  constructor
  · rintro ⟨id, hmem, hjob⟩
    rw [h.named id job hjob]
    exact ⟨hmem, hjob⟩
  · exact fun hget => ⟨job.batchId, hget⟩

theorem Kept.orderly (h : Kept r) : Orderly r := by
  have horder : r.finishedOrder.Nodup := by
    rw [h.order]
    exact h.finished_nodup.sublist (List.drop_sublist _ _)
  have hlisted : r.jobs.Sublist r.submitted := by
    rw [h.jobs]
    exact List.filter_sublist
  refine ⟨h.finished_iff, fun id hmem hterminal => ?_, fun l hsub hterminal => ?_,
    ⟨?_, fun id hmem => ?_⟩, fun id job hjob hactive => ?_, h.map_batchId_listJobs,
    fun _ => h.mem_listJobs⟩
  · exact List.count_eq_one_of_mem horder (h.mem_order hmem hterminal)
  · have hnodup : l.Nodup := (h.submitted_nodup.sublist hlisted).sublist hsub
    have hsubset : l ⊆ r.finishedOrder := fun id hmem =>
      h.mem_order (hsub.subset hmem) (hterminal id hmem)
    -- retained finished jobs are distinct members of the finished order
    have hlength : r.finishedOrder.length ≤ finishedJobRetention := by
      rw [h.order, List.rtake, List.length_drop]
      omega
    exact (List.subperm_of_subset hnodup hsubset).length_le.trans hlength
  · rw [h.order]
    exact (List.take_append_drop _ _).symm
  · rw [h.jobs, List.mem_filter, decide_eq_true_eq, not_and, not_not]
    exact ⟨fun hdropped => hdropped hmem, fun hdropped _ => hdropped⟩
  · rw [h.jobs, List.mem_filter, decide_eq_true_eq]
    refine ⟨(h.known id).mpr ⟨job, hjob⟩, fun hdropped => ?_⟩
    obtain ⟨job', hjob', hdone⟩ := (h.finished_iff id).mp (List.mem_of_mem_take hdropped)
    obtain rfl := Option.some.inj (hjob.symm.trans hjob')
    rw [isActive_eq_not_isTerminal, hdone] at hactive
    cases hactive

/-- In every run a job that has finished keeps its status, and the registry is orderly. -/
theorem registry_lifecycle (hr : (registry ρ).Reachable (.init ρ) r)
    (ht : (registry ρ).Reachable r t) : Settled r t ∧ Orderly t := by
  obtain ⟨hkept, -⟩ := kept_of_reachable hr kept_init
  obtain ⟨hkept', hsettled⟩ := kept_of_reachable ht hkept
  exact ⟨hsettled, hkept'.orderly⟩

/-- A job that is cancelled before its task takes a step. -/
def cancelledEarly : List (JobEvent Unit) :=
  [.submit "a" "s" 1, .submit "b" "s" 1, .cancel "a", .enters "b", .enters "a",
   .ends "b" (.returns ())]

theorem orderly_cancelledEarly :
    ∃ t, t.finishedOrder = ["a", "b"] ∧ Settled (Registry.init Unit) t ∧ Orderly t := by
  have hends : ((registry Unit).run (.init Unit) cancelledEarly).any
      (fun t => decide (t.finishedOrder = ["a", "b"])) = true := by
    decide +kernel
  obtain ⟨t, hreach, htest⟩ := Machine.exists_reachable_of_run _ hends
  exact ⟨t, of_decide_eq_true htest, registry_lifecycle .refl hreach⟩

end Jobs
