import Mathlib.Data.List.Basic
import Mathlib.Data.Rat.Init
import PpssppDfx.Breakpoint.CondFilter

/-!
# Running a batch

`_execute_batch` runs the steps of a batch one after the other and keeps a result for each and
four counters. A screenshot is skipped while a replay is being recorded. What a step raises
fails the step and not the batch, and in the mode `abort` the first step that fails is the
last one that runs. A cancellation ends the batch without a result.

The calls that a step makes are parameters: each may return or raise.

## Main definitions

* `Batch.execute` — one step
* `Batch.runFrom` — the loop over the steps
* `Batch.executeBatch` — `_execute_batch`
* `Batch.BatchResult.Accounted` — the counters, the results and the end of a batch agree

## Main results

* `executeBatch_accounted` — they do after every batch
-/

set_option autoImplicit false

namespace Batch

open Python

/-- What an await can raise, with its text. -/
inductive Raised where
  | toolError (text : String)
  | timeoutError (message : String)
  | other (className message : String)
  /-- Not an `Exception`. -/
  | cancelled
  deriving DecidableEq

/-- The text of a failed step; a cancellation is not caught. -/
def Raised.caught : Raised → Option String
  | toolError text => some text
  | timeoutError message => some (if message = "" then "TimeoutError" else message)
  | other className message => some (if message = "" then className else message)
  | cancelled => none

inductive CpuStepMode where
  | stepInto | stepOver | stepOut
  deriving DecidableEq

def CpuStepMode.name : CpuStepMode → String
  | stepInto => "into"
  | stepOver => "over"
  | stepOut => "out"

/-- A step that `_validate_step` let through; an option is a field that may be missing. -/
inductive Step where
  | press (button : String) (duration : Option ℤ)
  | wait (frames : ℤ) (interval : Option ℚ)
  | stateProbe (names : Option String) (samples : Option ℤ)
  | cpuStep (mode : CpuStepMode) (count : Option ℤ)
  | screenshot (source mode : Option String)

def Step.type : Step → String
  | press .. => "press"
  | wait .. => "wait"
  | stateProbe .. => "state_probe"
  | cpuStep .. => "cpu_step"
  | screenshot .. => "screenshot"

inductive Status where
  | success | failure | skipped
  deriving DecidableEq

def Status.name : Status → String
  | success => "success"
  | failure => "failure"
  | skipped => "skipped"

structure StepResult where
  index : ℕ
  type : String
  status : Status
  error : String
  data : Option Dict

inductive OnFailure where
  | continue | abort
  deriving DecidableEq

/-- A captured frame: whether it has data, and its description for a path. -/
structure Frame where
  hasData : Bool
  describe : String → Dict

/-- What the calls of one step return or raise. -/
structure StepWorld where
  pressButton : String → ℤ → Option Raised
  waitFramesChunked : ℤ → Option ℚ → Except Raised Value
  observeProbes : String → ℤ → Except Raised Dict
  enterStepping : Option Raised
  /-- `client.step_into` and the others, by the number of steps before. -/
  stepper : CpuStepMode → ℕ → Except Raised Dict
  leaveStepping : Option Raised
  captureFrame : Option String → Option String → Except Raised Frame
  saveOutputBytes : Except Raised String

/-! ## One step -/

/-- How a step ended, with its data. -/
structure Outcome where
  status : Status
  error : String
  data : Option Dict

/-- The instructions of a `cpu_step`: how many are confirmed, what the last one said, and the
text of the timeout that ended them early. -/
def stepLoop (stepper : ℕ → Except Raised Dict) :
    ℕ → ℕ → Dict → Except Raised (ℕ × Dict × Option String)
  | 0, stepped, info => .ok (stepped, info, none)
  | left + 1, stepped, info =>
    match stepper stepped with
    | .ok info => stepLoop stepper left (stepped + 1) info
    -- only a timeout is caught here
    | .error (.timeoutError message) => .ok (stepped, info, some message)
    | .error e => .error e

/-- `last_pc`: an integer is formatted, and anything else is its own text. -/
def lastPc (info : Dict) : String :=
  match (info.get? "pc").getD (.int 0) with
  | .int n => Breakpoint.formatAddress n
  | .bool b => Breakpoint.formatAddress (if b then 1 else 0)
  | pc => pc.text

/-- A step of type `cpu_step`. The CPU is resumed on every way out of the instructions. -/
def executeCpuStep (w : StepWorld) (mode : CpuStepMode) (count : ℤ) : Except Raised Outcome :=
  match w.enterStepping with
  | some e => .error e
  | none =>
    match stepLoop (w.stepper mode) count.toNat 0 [], w.leaveStepping with
    -- what the resume raises replaces what the instructions have raised
    | _, some e => .error e
    | .error e, none => .error e
    | .ok (stepped, info, stalled), none =>
      let data : Dict :=
        [(.str "mode", .str mode.name), (.str "requested", .int count),
         (.str "stepped", .int stepped), (.str "last_pc", .str (lastPc info)),
         (.str "last_ticks", (info.get? "ticks").getD .none), (.str "resumed_after", .bool true)]
      match stalled with
      | none => .ok ⟨.success, "", some data⟩
      | some message =>
        .ok ⟨.failure, "cpu_step confirmed " ++ toString stepped ++ "/" ++ toString count ++
          " steps then stalled: " ++ message, some data⟩

/-- The body of a step. -/
def execute (w : StepWorld) : Step → Except Raised Outcome
  | .press button duration =>
    let duration := duration.getD 1
    match w.pressButton button duration with
    | some e => .error e
    | none => .ok ⟨.success, "",
        some [(.str "button", .str button), (.str "duration", .int duration)]⟩
  | .wait frames interval =>
    (w.waitFramesChunked frames interval).map fun elapsed =>
      ⟨.success, "", some [(.str "frames", .int frames), (.str "elapsed_s", elapsed)]⟩
  | .stateProbe names samples =>
    (w.observeProbes (names.getD "") (samples.getD 1)).map fun observed =>
      ⟨.success, "", some observed⟩
  | .cpuStep mode count => executeCpuStep w mode (count.getD 1)
  | .screenshot source mode =>
    match w.captureFrame source mode with
    | .error e => .error e
    | .ok frame =>
      if frame.hasData then
        w.saveOutputBytes.map fun path => ⟨.success, "", some (frame.describe path)⟩
      else .ok ⟨.success, "", some (frame.describe "")⟩

/-- The step with its handlers: whatever it raises fails it, a cancellation apart. -/
def attempt (w : StepWorld) (step : Step) : Option Outcome :=
  match execute w step with
  | .ok outcome => some outcome
  | .error e => e.caught.map fun text => ⟨.failure, text, none⟩

/-! ## The loop -/

/-- The variables of the loop. -/
structure Tally where
  results : List StepResult
  executed : ℕ
  succeeded : ℕ
  failed : ℕ
  skipped : ℕ
  aborted : Bool
  abortReason : String

def Tally.start : Tally := ⟨[], 0, 0, 0, 0, false, ""⟩

namespace Tally

variable (t : Tally) (i : ℕ) (step : Step)

/-- A screenshot is skipped. -/
def skip : Tally :=
  { t with
    results := t.results ++ [⟨i, step.type, .skipped,
      "screenshot forbidden during replay recording (gpu.buffer.screenshot requires CPU stepping)",
      none⟩]
    skipped := t.skipped + 1 }

/-- A step has run. -/
def record (o : Outcome) : Tally :=
  { t with
    executed := t.executed + 1
    succeeded := if o.status = .success then t.succeeded + 1 else t.succeeded
    failed := if o.status = .success then t.failed else t.failed + 1
    results := t.results ++ [⟨i, step.type, o.status, o.error, o.data⟩] }

/-- The batch is left after a step that failed. -/
def abort (o : Outcome) : Tally :=
  { t with
    aborted := true
    abortReason := "step[" ++ toString i ++ "] type=" ++ step.type ++ " failed: " ++ o.error }

end Tally

/-- A progress callback: what it raises on the number of steps so far, the number of all
steps, the type of the step and its status. -/
abbrev ProgressCallback := ℕ → ℕ → String → String → Option Raised

/-- `_report`: whether it is cancelled. Exceptions are logged. -/
def report (onProgress : Option ProgressCallback) (processed total : ℕ) (type : String)
    (status : Status) : Bool :=
  match onProgress with
  | none => false
  | some callback => callback processed total type status.name = some .cancelled

/-- What a batch meets. -/
structure World where
  /-- What `session_client` raises on the way in. -/
  opens : Option Raised
  replayStatus : Except Raised Dict
  steps : ℕ → StepWorld
  onProgress : Option ProgressCallback
  /-- What `session_client` raises on the way out. -/
  closes : Option Raised

/-- Whether a step is skipped. -/
def skips (recordingMode : Bool) : Step → Bool
  | .screenshot .. => recordingMode
  | _ => false

/-- `for i, step in enumerate(steps)`, from the step `i` on; `none` when it is cancelled. -/
def runFrom (w : World) (total : ℕ) (onFailure : OnFailure) (recordingMode : Bool) :
    List Step → ℕ → Tally → Option Tally
  | [], _, t => some t
  | step :: rest, i, t =>
    if skips recordingMode step then
      if report w.onProgress (i + 1) total step.type .skipped then none
      else runFrom w total onFailure recordingMode rest (i + 1) (t.skip i step)
    else
      match attempt (w.steps i) step with
      | none => none
      | some o =>
        if report w.onProgress (i + 1) total step.type o.status then none
        else if o.status = .failure ∧ onFailure = .abort then
          some ((t.record i step o).abort i step o)
        else runFrom w total onFailure recordingMode rest (i + 1) (t.record i step o)

structure BatchResult where
  action : String
  total : ℕ
  executed : ℕ
  succeeded : ℕ
  failed : ℕ
  skipped : ℕ
  recordingMode : Bool
  results : List StepResult
  aborted : Bool
  abortReason : String

/-- `_execute_batch`: its result, or what it raises. -/
def executeBatch (w : World) (steps : List Step) (onFailure : OnFailure) :
    Except Raised BatchResult :=
  match w.opens with
  | some e => .error e
  | none =>
    -- a probe that fails counts as one that says that nothing is recorded
    match w.replayStatus with
    | .error .cancelled => .error .cancelled
    | status =>
      let recordingMode := match status with
        | .ok response => ((response.get? "saving").getD (.bool false)).truthy
        | .error _ => false
      match runFrom w steps.length onFailure recordingMode steps 0 .start, w.closes with
      -- a batch that has run is lost if the session cannot be left
      | _, some e => .error e
      | none, none => .error .cancelled
      | some t, none =>
        .ok {
          action := "run"
          total := steps.length
          executed := t.executed
          succeeded := t.succeeded
          failed := t.failed
          skipped := t.skipped
          recordingMode := recordingMode
          results := t.results
          aborted := t.aborted
          abortReason := t.abortReason }

/-- The counters, the results and the end of a batch agree. -/
structure BatchResult.Accounted (r : BatchResult) (steps : List Step) (onFailure : OnFailure) :
    Prop where
  indices : r.results.map StepResult.index = List.range r.results.length
  types : r.results.map StepResult.type = (steps.take r.results.length).map Step.type
  succeeded_eq : r.succeeded = r.results.countP (·.status = .success)
  failed_eq : r.failed = r.results.countP (·.status = .failure)
  skipped_eq : r.skipped = r.results.countP (·.status = .skipped)
  executed_eq : r.executed = r.succeeded + r.failed
  length_eq : r.results.length = r.executed + r.skipped
  total_eq : r.total = steps.length
  length_le : r.results.length ≤ r.total
  complete : r.aborted = false → r.results.length = r.total
  aborted_iff : r.aborted = true ↔ onFailure = .abort ∧ ∃ x ∈ r.results, x.status = .failure
  last_failed : r.aborted = true → ∃ earlier last, r.results = earlier ++ [last] ∧
    last.status = .failure ∧ ∀ x ∈ earlier, x.status ≠ .failure

/-! ## What the loop keeps -/

variable {w : World} {steps rest : List Step} {step : Step} {onFailure : OnFailure}
  {recordingMode : Bool} {t t' : Tally} {i : ℕ} {o : Outcome}

/-- The counters and the results after the first steps. -/
structure Tally.Counts (steps : List Step) (t : Tally) : Prop where
  indices : t.results.map StepResult.index = List.range t.results.length
  types : t.results.map StepResult.type = (steps.take t.results.length).map Step.type
  succeeded_eq : t.succeeded = t.results.countP (·.status = .success)
  failed_eq : t.failed = t.results.countP (·.status = .failure)
  skipped_eq : t.skipped = t.results.countP (·.status = .skipped)
  executed_eq : t.executed = t.succeeded + t.failed
  length_eq : t.results.length = t.executed + t.skipped
  length_le : t.results.length ≤ steps.length

/-- The loop stands before the rest of the steps, and no failure has ended it. -/
structure Tally.Before (steps rest : List Step) (onFailure : OnFailure) (t : Tally) : Prop where
  counts : t.Counts steps
  rest_eq : steps.drop t.results.length = rest
  notAborted : t.aborted = false
  noFailure : onFailure = .abort → ∀ x ∈ t.results, x.status ≠ .failure

/-- The loop has ended. -/
structure Tally.Ended (steps : List Step) (onFailure : OnFailure) (t : Tally) : Prop where
  counts : t.Counts steps
  complete : t.aborted = false →
    t.results.length = steps.length ∧ (onFailure = .abort → ∀ x ∈ t.results, x.status ≠ .failure)
  last_failed : t.aborted = true → onFailure = .abort ∧ ∃ earlier last,
    t.results = earlier ++ [last] ∧ last.status = .failure ∧ ∀ x ∈ earlier, x.status ≠ .failure

theorem Tally.before_start : Tally.start.Before steps steps onFailure where
  counts := ⟨rfl, rfl, rfl, rfl, rfl, rfl, rfl, Nat.zero_le _⟩
  rest_eq := rfl
  notAborted := rfl
  noFailure := fun _ x hx => by cases hx

/-- A `cpu_step` succeeds or, after a timeout, fails. -/
theorem status_of_executeCpuStep {v : StepWorld} {mode : CpuStepMode} {count : ℤ}
    (h : executeCpuStep v mode count = .ok o) : o.status = .success ∨ o.status = .failure := by
  unfold executeCpuStep at h
  cases henter : v.enterStepping with
  | some e => rw [henter] at h; cases h
  | none =>
    rw [henter] at h
    cases hleave : v.leaveStepping with
    | some e => rw [hleave] at h; cases h
    | none =>
      rw [hleave] at h
      cases hloop : stepLoop (v.stepper mode) count.toNat 0 [] with
      | error e => rw [hloop] at h; cases h
      | ok result =>
        obtain ⟨stepped, info, stalled⟩ := result
        rw [hloop] at h
        cases stalled with
        | none => cases h; exact Or.inl rfl
        | some message => cases h; exact Or.inr rfl

/-- No step that runs is skipped. -/
theorem status_of_execute {v : StepWorld} (h : execute v step = .ok o) :
    o.status = .success ∨ o.status = .failure := by
  cases step with
  | press button duration =>
    rw [execute] at h
    cases hpress : v.pressButton button (duration.getD 1) with
    | some e => rw [hpress] at h; cases h
    | none => rw [hpress] at h; cases h; exact Or.inl rfl
  | wait frames interval =>
    rw [execute] at h
    cases hwait : v.waitFramesChunked frames interval with
    | error e => rw [hwait] at h; cases h
    | ok elapsed => rw [hwait] at h; cases h; exact Or.inl rfl
  | stateProbe names samples =>
    rw [execute] at h
    cases hobserve : v.observeProbes (names.getD "") (samples.getD 1) with
    | error e => rw [hobserve] at h; cases h
    | ok observed => rw [hobserve] at h; cases h; exact Or.inl rfl
  | cpuStep mode count => exact status_of_executeCpuStep h
  | screenshot source mode =>
    rw [execute] at h
    cases hframe : v.captureFrame source mode with
    | error e => rw [hframe] at h; cases h
    | ok frame =>
      rw [hframe] at h
      dsimp only at h
      split at h
      · cases hsave : v.saveOutputBytes with
        | error e => rw [hsave] at h; cases h
        | ok path => rw [hsave] at h; cases h; exact Or.inl rfl
      · cases h; exact Or.inl rfl

theorem status_of_attempt {v : StepWorld} (h : attempt v step = some o) :
    o.status = .success ∨ o.status = .failure := by
  unfold attempt at h
  cases hexecute : execute v step with
  | ok outcome =>
    rw [hexecute] at h
    obtain rfl := Option.some.inj h
    exact status_of_execute hexecute
  | error e =>
    rw [hexecute] at h
    obtain ⟨text, -, rfl⟩ := Option.map_eq_some_iff.mp h
    exact Or.inr rfl

namespace Tally.Before

/-- A further result for the next step. -/
theorem append (h : t.Before steps (step :: rest) onFailure) {x : StepResult}
    (hindex : x.index = t.results.length) (htype : x.type = step.type) :
    (t.results ++ [x]).map StepResult.index = List.range (t.results ++ [x]).length ∧
      (t.results ++ [x]).map StepResult.type =
        (steps.take (t.results ++ [x]).length).map Step.type ∧
      (t.results ++ [x]).length ≤ steps.length ∧ steps.drop (t.results ++ [x]).length = rest := by
  have hlength : (t.results ++ [x]).length = t.results.length + 1 := List.length_append
  have hstep : steps[t.results.length]? = some step := by
    rw [← List.head?_drop, h.rest_eq, List.head?_cons]
  have htake : steps.take (t.results.length + 1) = steps.take t.results.length ++ [step] := by
    rw [List.take_add_one, hstep, Option.toList_some]
  have hdrop : steps.drop (t.results.length + 1) = rest := by
    rw [← List.drop_drop, h.rest_eq, List.drop_one, List.tail_cons]
  refine ⟨?_, ?_, ?_, ?_⟩
  · rw [hlength, List.map_append, h.counts.indices, List.range_succ, List.map_singleton, hindex]
  · rw [hlength, htake, List.map_append, List.map_append, h.counts.types, List.map_singleton,
      List.map_singleton, htype]
  · rw [hlength]
    exact (List.getElem?_eq_some_iff.mp hstep).1
  · rw [hlength, hdrop]

/-- A step is skipped. -/
theorem skip (h : t.Before steps (step :: rest) onFailure) :
    (t.skip t.results.length step).Before steps rest onFailure := by
  obtain ⟨hindices, htypes, hle, hrest⟩ := h.append
    (x := ⟨t.results.length, step.type, .skipped, _, none⟩) rfl rfl
  refine ⟨⟨hindices, htypes, ?_, ?_, ?_, h.counts.executed_eq, ?_, hle⟩, hrest, h.notAborted, ?_⟩
  · rw [Tally.skip, List.countP_append, h.counts.succeeded_eq]
    rfl
  · rw [Tally.skip, List.countP_append, h.counts.failed_eq]
    rfl
  · rw [Tally.skip, List.countP_append, h.counts.skipped_eq]
    rfl
  · rw [Tally.skip, List.length_append, h.counts.length_eq]
    rfl
  · intro habort x hx
    rcases List.mem_append.mp hx with hearlier | hlast
    · exact h.noFailure habort x hearlier
    · rw [List.mem_singleton.mp hlast]
      exact Status.noConfusion

/-- A step has run: the counters and the results. -/
theorem record_counts (h : t.Before steps (step :: rest) onFailure)
    (ho : o.status = .success ∨ o.status = .failure) :
    (t.record t.results.length step o).Counts steps := by
  obtain ⟨hindices, htypes, hle, -⟩ := h.append
    (x := ⟨t.results.length, step.type, o.status, o.error, o.data⟩) rfl rfl
  -- a step that has run is a success or a failure, and moves one of the two counters
  refine ⟨hindices, htypes, ?_, ?_, ?_, ?_, ?_, hle⟩
  · rw [Tally.record, List.countP_append, ← h.counts.succeeded_eq]
    rcases ho with ho | ho <;> simp [ho]
  · rw [Tally.record, List.countP_append, ← h.counts.failed_eq]
    rcases ho with ho | ho <;> simp [ho]
  · rw [Tally.record, List.countP_append, ← h.counts.skipped_eq]
    rcases ho with ho | ho <;> simp [ho]
  · have hexecuted := h.counts.executed_eq
    rw [Tally.record]
    rcases ho with ho | ho
    · simp only [ho, reduceIte]
      omega
    · simp only [ho, reduceCtorEq, reduceIte]
      omega
  · have hlength := h.counts.length_eq
    rw [Tally.record, List.length_append, List.length_singleton]
    dsimp only
    omega

/-- A step has run, and the loop goes on. -/
theorem record (h : t.Before steps (step :: rest) onFailure)
    (ho : o.status = .success ∨ o.status = .failure)
    (hgoes : ¬ (o.status = .failure ∧ onFailure = .abort)) :
    (t.record t.results.length step o).Before steps rest onFailure := by
  obtain ⟨-, -, -, hrest⟩ := h.append
    (x := ⟨t.results.length, step.type, o.status, o.error, o.data⟩) rfl rfl
  refine ⟨h.record_counts ho, hrest, h.notAborted, ?_⟩
  intro habort x hx
  rcases List.mem_append.mp hx with hearlier | hlast
  · exact h.noFailure habort x hearlier
  · rw [List.mem_singleton.mp hlast]
    exact fun hfailure => hgoes ⟨hfailure, habort⟩

/-- A step has failed, and the loop is left. -/
theorem abort (h : t.Before steps (step :: rest) onFailure) (hfailure : o.status = .failure)
    (habort : onFailure = .abort) :
    ((t.record t.results.length step o).abort t.results.length step o).Ended steps onFailure where
  counts := by
    obtain ⟨hindices, htypes, hsucceeded, hfailed, hskipped, hexecuted, hlength, hle⟩ :=
      h.record_counts (Or.inr hfailure)
    exact ⟨hindices, htypes, hsucceeded, hfailed, hskipped, hexecuted, hlength, hle⟩
  complete := fun hnot => by cases hnot
  last_failed := fun _ => ⟨habort, t.results, _, rfl, hfailure, h.noFailure habort⟩

/-- The loop ends when no step is left. -/
theorem ended (h : t.Before steps [] onFailure) : t.Ended steps onFailure where
  counts := h.counts
  complete := fun _ =>
    ⟨le_antisymm h.counts.length_le (List.drop_eq_nil_iff.mp h.rest_eq), h.noFailure⟩
  last_failed := fun haborted => by
    rw [h.notAborted] at haborted
    cases haborted

end Tally.Before

/-- The loop over the rest of the steps. -/
theorem runFrom_ended {total : ℕ} (h : t.Before steps rest onFailure)
    (hrun : runFrom w total onFailure recordingMode rest t.results.length t = some t') :
    t'.Ended steps onFailure := by
  -- by induction on the steps that are left; `Before` carries the counters
  induction rest generalizing t with
  | nil =>
    obtain rfl := Option.some.inj hrun
    exact h.ended
  | cons step rest ih =>
    rw [runFrom] at hrun
    have hlength (x : StepResult) : (t.results ++ [x]).length = t.results.length + 1 :=
      List.length_append
    split at hrun
    · split at hrun
      · cases hrun
      · exact ih h.skip (by rw [Tally.skip, hlength]; exact hrun)
    · cases hattempt : attempt (w.steps t.results.length) step with
      | none => rw [hattempt] at hrun; cases hrun
      | some o =>
        rw [hattempt] at hrun
        have ho := status_of_attempt hattempt
        dsimp only at hrun
        split at hrun
        · cases hrun
        · split at hrun
          · rename_i hfails
            obtain rfl := Option.some.inj hrun
            exact h.abort hfails.1 hfails.2
          · rename_i hgoes
            exact ih (h.record ho hgoes) (by rw [Tally.record, hlength]; exact hrun)

/-! ## Batches -/

/-- The result of a batch is the one of its loop. -/
theorem runFrom_of_executeBatch {r : BatchResult} (h : executeBatch w steps onFailure = .ok r) :
    ∃ recordingMode t, runFrom w steps.length onFailure recordingMode steps 0 .start = some t ∧
      r = ⟨"run", steps.length, t.executed, t.succeeded, t.failed, t.skipped, recordingMode,
        t.results, t.aborted, t.abortReason⟩ := by
  unfold executeBatch at h
  cases hopens : w.opens with
  | some e => rw [hopens] at h; cases h
  | none =>
    rw [hopens] at h
    dsimp only at h
    split at h
    · cases h
    · split at h
      · cases h
      · cases h
      · rename_i hrun hcloses
        cases h
        exact ⟨_, _, hrun, rfl⟩

/-- After every batch the counters, the results and the end of the batch agree. -/
theorem executeBatch_accounted (w : World) (steps : List Step) (onFailure : OnFailure)
    (r : BatchResult) (h : executeBatch w steps onFailure = .ok r) :
    r.Accounted steps onFailure := by
  obtain ⟨recordingMode, t, hrun, rfl⟩ := runFrom_of_executeBatch h
  have hended : t.Ended steps onFailure := runFrom_ended Tally.before_start hrun
  have hcounts := hended.counts
  exact {
    indices := hcounts.indices
    types := hcounts.types
    succeeded_eq := hcounts.succeeded_eq
    failed_eq := hcounts.failed_eq
    skipped_eq := hcounts.skipped_eq
    executed_eq := hcounts.executed_eq
    length_eq := hcounts.length_eq
    total_eq := rfl
    length_le := hcounts.length_le
    complete := fun hnot => (hended.complete hnot).1
    aborted_iff := by
      constructor
      · intro haborted
        obtain ⟨habort, earlier, last, hresults, hfailure, -⟩ := hended.last_failed haborted
        exact ⟨habort, last, hresults ▸ List.mem_append_right _ List.mem_cons_self, hfailure⟩
      · rintro ⟨habort, x, hx, hfailure⟩
        by_contra hnot
        exact (hended.complete (Bool.eq_false_iff.mpr hnot)).2 habort x hx hfailure
    last_failed := fun haborted => (hended.last_failed haborted).2 }

/-! ## The error of a batch -/

/-- The failed steps, as the error of a batch lists them. -/
def BatchResult.failures (r : BatchResult) : String :=
  " | ".intercalate ((r.results.filter (·.status = .failure)).map fun x =>
    "step[" ++ toString x.index ++ "] " ++ x.type ++ ": " ++
      (if x.error = "" then "failed" else x.error))

/-- `_batch_failure_error`: the text of the `BATCH_STEP_FAILED`, empty for a clean success. -/
def BatchResult.failureError (r : BatchResult) : String :=
  if r.failed = 0 ∧ r.aborted = false then ""
  else
    "batch_step executed " ++ (toString r.executed ++ " step(s): " ++
      toString r.succeeded ++ " succeeded, " ++ toString r.failed ++ " failed" ++
      (if r.skipped ≠ 0 then ", " ++ toString r.skipped ++ " skipped" else "") ++
      (if r.aborted then "; aborted: " ++ r.abortReason else "") ++
      (if r.failures ≠ "" then " | " ++ r.failures else ""))

/-- A batch is a clean success exactly when no step failed. -/
theorem failureError_eq_empty_iff {r : BatchResult} (h : r.Accounted steps onFailure) :
    r.failureError = "" ↔ ∀ x ∈ r.results, x.status ≠ .failure := by
  have hfailed : r.failed = 0 ↔ ∀ x ∈ r.results, x.status ≠ .failure := by
    rw [h.failed_eq, List.countP_eq_zero]
    simp
  unfold BatchResult.failureError
  split
  · rename_i hclean
    exact iff_of_true rfl (hfailed.mp hclean.1)
  · rename_i hunclean
    refine iff_of_false (fun hempty => ?_) fun hnone => ?_
    · have hfirst := (String.append_eq_empty_iff.mp hempty).1
      exact absurd hfirst (by decide)
    -- an abort needs a failure of its own
    · refine hunclean ⟨hfailed.mpr hnone, Bool.eq_false_iff.mpr fun haborted => ?_⟩
      obtain ⟨x, hx, hfailure⟩ := (h.aborted_iff.mp haborted).2
      exact hnone x hx hfailure

/-! ## A batch of four steps -/

/-- Calls that all succeed. -/
def quietStep : StepWorld where
  pressButton _ _ := none
  waitFramesChunked _ _ := .ok (.int 0)
  observeProbes _ _ := .ok []
  enterStepping := none
  stepper _ _ := .ok []
  leaveStepping := none
  captureFrame _ _ := .ok ⟨false, fun _ => []⟩
  saveOutputBytes := .ok ""

/-- A replay is being recorded, and the wait is refused. -/
def recordingWorld : World where
  opens := none
  replayStatus := .ok [(.str "saving", .bool true)]
  steps i := if i = 2 then
    { quietStep with waitFramesChunked := fun _ _ => .error (.toolError "[ARGS_INVALID] frames") }
    else quietStep
  onProgress := none
  closes := none

def fourSteps : List Step :=
  [.press "cross" none, .screenshot none none, .wait (-1) none, .press "circle" none]

/-- The result of the four steps in the mode `abort`. -/
def recordingResult : BatchResult where
  action := "run"
  total := 4
  executed := 2
  succeeded := 1
  failed := 1
  skipped := 1
  recordingMode := true
  results :=
    [⟨0, "press", .success, "", some [(.str "button", .str "cross"), (.str "duration", .int 1)]⟩,
     ⟨1, "screenshot", .skipped,
      "screenshot forbidden during replay recording (gpu.buffer.screenshot requires CPU stepping)",
      none⟩,
     ⟨2, "wait", .failure, "[ARGS_INVALID] frames", none⟩]
  aborted := true
  abortReason := "step[2] type=wait failed: [ARGS_INVALID] frames"

/-- A screenshot is skipped, a wait fails and the last step does not run. -/
theorem accounted_recordingResult :
    executeBatch recordingWorld fourSteps .abort = .ok recordingResult ∧
      recordingResult.Accounted fourSteps .abort :=
  ⟨rfl, executeBatch_accounted recordingWorld fourSteps .abort recordingResult rfl⟩

end Batch
