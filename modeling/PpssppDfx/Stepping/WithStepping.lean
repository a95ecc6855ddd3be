import PpssppDfx.Python.Value
import PpssppDfx.Semantics.Machine

/-!
# The `with_stepping` context

`with_stepping` probes the CPU, pauses it unless it is to keep a state in which the
CPU already steps, runs the body, and resumes the CPU from a shielded task. Every
await can fail, time out or be cancelled; the outcomes are the labels of the machine.

The pause is confirmed by polling `cpu.status`. A pause that fails is final by
design: the context raises `SteppingFailedError`, the body does not run, and no
resume is attempted. The resume obligation starts with the confirmed pause.

## Main results

* `inv_apply` — what every await outcome keeps
* `runState_restored` — what the context does about the run state on every exit
* `paused_and_left` — a run that sends the pause command and exits without a resume
-/

set_option autoImplicit false

namespace WithStepping

open Python Semantics

/-- How a request to the debugger ends. -/
inductive CallResult where
  | answered (status : Dict)
  | timedOut (text : String)
  | raised (text : String)
  | cancelled

/-- How a fire-and-forget send ends. -/
inductive SendResult where
  | sent
  | raised (text : String)
  | cancelled

inductive Command where
  | stepping
  | resume
  deriving DecidableEq

inductive BodyExit where
  | returned
  | raised
  | cancelled
  deriving DecidableEq

/-- The task that runs `resume()` under the shield. -/
inductive ResumeTask where
  | absent
  | scheduled
  | sending
  | awaitingBroadcast
  | polling
  | sleeping
  | finished (ok : Bool)
  deriving DecidableEq

/-- How the context ends. -/
inductive Exit where
  | returned
  | bodyRaised
  | resumeRaised
  | cancelled
  | steppingFailed (message : String) (pidAlive : Option Bool)
  deriving DecidableEq

/-- The await the context stands at. -/
inductive Phase where
  | probing
  | pauseProbing
  | pauseSending
  | pausePolling
  | pauseSleeping
  | body
  | shielding (bodyExit : BodyExit)
  | exited (exit : Exit)
  deriving DecidableEq

inductive PauseOutcome where
  | confirmed
  | failed
  | cancelled
  deriving DecidableEq

/-- What one use of the context is given, and the run state on entry. -/
structure Config where
  preserveState : Bool
  pid : Option ℕ
  hasObserver : Bool
  timeoutMs : ℕ
  running : Bool

structure State where
  phase : Phase
  /-- The answer to the entry probe; `none` before it and when it failed. -/
  probeSaid : Option Bool
  lastStatus : Option Dict
  pauseOutcome : Option PauseOutcome
  bodyEntered : Bool
  resumeTask : ResumeTask
  /-- Commands handed to the transport, oldest first. -/
  issued : List Command

def init : State where
  phase := .probing
  probeSaid := none
  lastStatus := none
  pauseOutcome := none
  bodyEntered := false
  resumeTask := .absent
  issued := []

/-- `bool(status.get("stepping", False))`. -/
def reportsStepping (status : Dict) : Bool :=
  match status.get? "stepping" with
  | some v => v.truthy
  | none => false

/-- `status.get("stepping") is b`. -/
def steppingIs (status : Dict) (b : Bool) : Bool :=
  match status.get? "stepping" with
  | some (.bool v) => v == b
  | _ => false

/-- Already stepping, and asked to keep that. -/
def keepsState (cfg : Config) (s : State) : Bool :=
  cfg.preserveState && s.probeSaid == some true

/-- Leave the probe: enter the body at once, or start to pause. -/
def afterProbe (cfg : Config) (s : State) : State :=
  -- nothing is paused, and nothing will be resumed
  if keepsState cfg s then { s with phase := .body, bodyEntered := true }
  else { s with phase := .pauseProbing }

/-- Hand `cpu.stepping` to the transport. -/
def sendStepping (s : State) : State :=
  { s with phase := .pauseSending, issued := s.issued ++ [.stepping] }

def pauseCancelled (s : State) : State :=
  { s with phase := .exited .cancelled, pauseOutcome := some .cancelled }

def pauseConfirmed (s : State) : State :=
  { s with phase := .body, pauseOutcome := some .confirmed, bodyEntered := true }

def pauseFailed (s : State) (message : String) (pidAlive : Option Bool) : State :=
  { s with phase := .exited (.steppingFailed message pidAlive), pauseOutcome := some .failed }

/-- The message of a failed pause whose process was not checked. -/
def stateUnknownMessage (text : String) : String :=
  "pause failed; CPU state unknown, cannot enter stepping context: " ++ text

/-- A pause that was not confirmed in time: look at the process if it is known. -/
def pauseTimedOut (cfg : Config) (s : State) (text : String) (alive : Bool) : State :=
  match cfg.pid with
  -- there is no process to look at
  | none => pauseFailed s (stateUnknownMessage text) none
  | some _ =>
    let ticks := match s.lastStatus.bind fun status => status.get? "ticks" with
      | none => "unknown"
      | some .none => "unknown"
      | some v => v.text
    let message :=
      if alive then "pause failed: PID alive but CPU not entering STEPPING; last ticks=" ++ ticks
      else "pause failed: PID dead; PPSSPP process no longer running"
    pauseFailed s message (some alive)

/-- The text of a `wait_for_state` timeout. -/
def waitTimeoutText (cfg : Config) : String :=
  "wait_for_state timeout (" ++ toString cfg.timeoutMs ++ "ms) — predicate not satisfied"

/-- The exit of a context that has nothing to resume. -/
def bodyExit : BodyExit → Exit
  | .returned => .returned
  | .raised => .bodyRaised
  | .cancelled => .cancelled

/-- The exit once the shielded resume is done: its failure shows only after a body that
succeeded. -/
def shieldExit (b : BodyExit) (ok : Bool) : Exit :=
  match b, ok with
  | .returned, false => .resumeRaised
  | b, _ => bodyExit b

/-- The outcomes of awaits, of the context and of its resume task. -/
inductive Event where
  | probed (r : CallResult)
  | pauseProbed (r : CallResult)
  | steppingSent (r : SendResult)
  | pausePolled (r : CallResult) (deadline alive : Bool)
  | pauseSlept (cancelled : Bool)
  | bodyDone (b : BodyExit)
  | resumeStarts
  | resumeSent (sent : Bool)
  | broadcastAwaited (confirmed : Bool)
  | resumePolled (r : CallResult) (deadline : Bool)
  | resumeSlept
  | shieldDone
  | callerCancelled

/-- The outcomes that can happen in a state. An answered entry probe tells the run
state on entry. -/
def enabled (cfg : Config) (s : State) : Event → Bool
  | .probed (.answered status) =>
    s.phase == .probing && reportsStepping status == !cfg.running
  | .probed _ => s.phase == .probing
  | .pauseProbed _ => s.phase == .pauseProbing
  | .steppingSent _ => s.phase == .pauseSending
  | .pausePolled _ _ _ => s.phase == .pausePolling
  | .pauseSlept _ => s.phase == .pauseSleeping
  | .bodyDone _ => s.phase == .body
  | .resumeStarts => s.resumeTask == .scheduled
  | .resumeSent _ => s.resumeTask == .sending
  | .broadcastAwaited _ => s.resumeTask == .awaitingBroadcast
  | .resumePolled _ _ => s.resumeTask == .polling
  | .resumeSlept => s.resumeTask == .sleeping
  | .shieldDone =>
    match s.phase, s.resumeTask with
    | .shielding _, .finished _ => true
    | _, _ => false
  | .callerCancelled =>
    match s.phase with
    | .shielding _ => true
    | _ => false

/-- The code from an await to the next one. -/
def apply (cfg : Config) (s : State) : Event → State
  | .probed r =>
    match r with
    | .answered status => afterProbe cfg { s with probeSaid := some (reportsStepping status) }
    | .cancelled => { s with phase := .exited .cancelled }
    -- Conservative: without an answer the CPU counts as running.
    | _ => afterProbe cfg s
  | .pauseProbed r =>
    match r with
    -- the probe is best-effort: its answer serves an error message only
    | .answered status => sendStepping { s with lastStatus := some status }
    | .cancelled => pauseCancelled s
    | _ => sendStepping { s with lastStatus := none }
  | .steppingSent r =>
    match r with
    | .sent => { s with phase := .pausePolling }
    | .raised text => pauseFailed s (stateUnknownMessage text) none
    | .cancelled => pauseCancelled s
  | .pausePolled r deadline alive =>
    match r with
    | .answered status =>
      if steppingIs status true then pauseConfirmed s
      else if deadline then pauseTimedOut cfg s (waitTimeoutText cfg) alive
      else { s with phase := .pauseSleeping }
    | .timedOut text =>
      pauseTimedOut cfg s (waitTimeoutText cfg ++ " (last poll: " ++ text ++ ")") alive
    | .raised text => pauseFailed s (stateUnknownMessage text) none
    | .cancelled => pauseCancelled s
  | .pauseSlept cancelled =>
    if cancelled then pauseCancelled s else { s with phase := .pausePolling }
  | .bodyDone b =>
    if keepsState cfg s then { s with phase := .exited (bodyExit b) }
    else { s with phase := .shielding b, resumeTask := .scheduled }
  | .resumeStarts => { s with resumeTask := .sending, issued := s.issued ++ [.resume] }
  | .resumeSent sent =>
    if !sent then { s with resumeTask := .finished false }
    else if cfg.hasObserver then { s with resumeTask := .awaitingBroadcast }
    else { s with resumeTask := .polling }
  | .broadcastAwaited confirmed =>
    -- without a broadcast the state is asked for
    { s with resumeTask := if confirmed then .finished true else .polling }
  | .resumePolled r deadline =>
    match r with
    | .answered status =>
      if steppingIs status false then { s with resumeTask := .finished true }
      else if deadline then { s with resumeTask := .finished false }
      else { s with resumeTask := .sleeping }
    | _ => { s with resumeTask := .finished false }
  | .resumeSlept => { s with resumeTask := .polling }
  | .shieldDone =>
    match s.phase, s.resumeTask with
    | .shielding b, .finished ok => { s with phase := .exited (shieldExit b ok) }
    | _, _ => s
  -- behind the shield the resume goes on
  | .callerCancelled => { s with phase := .exited .cancelled }

/-- One use of the context. -/
def machine (cfg : Config) : Machine State Event where
  step s e := if enabled cfg s e then some (apply cfg s e) else none

theorem machine_step_eq_some_iff {cfg : Config} {s t : State} {e : Event} :
    (machine cfg).step s e = some t ↔ enabled cfg s e = true ∧ apply cfg s e = t := by
  simp [machine]

/-! ## What each await keeps -/

/-- The context has not entered its body: it probes or pauses. -/
def Phase.entering : Phase → Bool
  | .probing => true
  | .pauseProbing => true
  | .pauseSending => true
  | .pausePolling => true
  | .pauseSleeping => true
  | _ => false

/-- The resume task has handed its command over. -/
def ResumeTask.hasIssued : ResumeTask → Bool
  | .absent => false
  | .scheduled => false
  | _ => true

/-- What holds between two awaits. -/
structure Inv (cfg : Config) (s : State) : Prop where
  resumeIssued : .resume ∈ s.issued ↔ s.resumeTask.hasIssued = true
  entering : s.phase.entering = true →
    s.pauseOutcome = none ∧ s.bodyEntered = false ∧ s.resumeTask = .absent
  probing : s.phase = .probing → s.issued = [] ∧ s.probeSaid = none
  body : s.phase = .body → s.resumeTask = .absent ∧
    (keepsState cfg s = true ∨ s.pauseOutcome = some .confirmed)
  shielding : ∀ b, s.phase = .shielding b → s.pauseOutcome = some .confirmed
  confirmed : s.pauseOutcome = some .confirmed → s.phase = .body ∨ s.resumeTask ≠ .absent
  failed : s.pauseOutcome = some .failed →
    (∃ message alive, s.phase = .exited (.steppingFailed message alive)) ∧
      s.bodyEntered = false ∧ s.resumeTask = .absent
  kept : keepsState cfg s = true →
    s.issued = [] ∧ s.pauseOutcome = none ∧ s.phase.entering = false
  resumed : s.resumeTask ≠ .absent → s.pauseOutcome = some .confirmed

section Steps

variable {cfg : Config} {s : State}

/-- A context that waits to be paused does not keep its state. -/
theorem Inv.not_keeps (h : Inv cfg s) (hphase : s.phase.entering = true) :
    keepsState cfg s = false := by
  cases hkeeps : keepsState cfg s with
  | false => rfl
  | true =>
    obtain ⟨_, _, hfalse⟩ := h.kept hkeeps
    rw [hphase] at hfalse
    exact absurd hfalse (by decide)

/-- Leaving the entry probe with or without an answer. -/
theorem Inv.afterProbe (h : Inv cfg s) (hphase : s.phase = .probing) (said : Option Bool) :
    Inv cfg (afterProbe cfg { s with probeSaid := said }) := by
  obtain ⟨hpause, hbody, htask⟩ := h.entering (by rw [hphase]; rfl)
  obtain ⟨hissued, _⟩ := h.probing hphase
  have hresume := h.resumeIssued
  unfold WithStepping.afterProbe
  split
  · rename_i hkeeps
    exact ⟨hresume, by simp [Phase.entering], by simp, fun _ => ⟨htask, Or.inl hkeeps⟩,
      by simp, by simp [hpause], by simp [hpause], fun _ => ⟨hissued, hpause, rfl⟩,
      fun hne => absurd htask hne⟩
  · rename_i hkeeps
    refine ⟨hresume, fun _ => ⟨hpause, hbody, htask⟩, by simp, by simp, by simp,
      by simp [hpause], by simp [hpause], fun hk => absurd hk hkeeps,
      fun hne => absurd htask hne⟩

/-- A step of the pause that stays in the pause. -/
theorem Inv.pausing (h : Inv cfg s) (hphase : s.phase.entering = true) {t : State}
    (ht : t.phase.entering = true ∧ t.phase ≠ .probing)
    (hsame : t.pauseOutcome = s.pauseOutcome ∧ t.bodyEntered = s.bodyEntered ∧
      t.resumeTask = s.resumeTask ∧ t.probeSaid = s.probeSaid)
    (hissued : Command.resume ∈ t.issued ↔ Command.resume ∈ s.issued) : Inv cfg t := by
  obtain ⟨hpause, hbody, htask⟩ := h.entering hphase
  obtain ⟨hpause', hbody', htask', hsaid⟩ := hsame
  have hkeeps : keepsState cfg t = false := by
    rw [← h.not_keeps hphase]
    simp only [keepsState, hsaid]
  refine ⟨by rw [hissued, htask']; exact h.resumeIssued, fun _ => ⟨hpause'.trans hpause,
    hbody'.trans hbody, htask'.trans htask⟩, fun hp => absurd hp ht.2, ?_, ?_, ?_, ?_, ?_, ?_⟩
  · intro hp
    rw [hp] at ht
    exact absurd ht.1 (by decide)
  · intro b hp
    rw [hp] at ht
    exact absurd ht.1 (by simp [Phase.entering])
  · simp [hpause', hpause]
  · simp [hpause', hpause]
  · simp [hkeeps]
  · simp [htask', htask]

theorem Inv.pauseConfirmed (h : Inv cfg s) (hphase : s.phase.entering = true) :
    Inv cfg (pauseConfirmed s) := by
  obtain ⟨_, _, htask⟩ := h.entering hphase
  have hkeeps := h.not_keeps hphase
  exact ⟨h.resumeIssued, by simp [WithStepping.pauseConfirmed, Phase.entering],
    by simp [WithStepping.pauseConfirmed], fun _ => ⟨htask, Or.inr rfl⟩,
    by simp [WithStepping.pauseConfirmed], fun _ => Or.inl rfl,
    by simp [WithStepping.pauseConfirmed], fun hk => absurd (hkeeps.symm.trans hk) (by decide),
    fun _ => rfl⟩

theorem Inv.pauseCancelled (h : Inv cfg s) (hphase : s.phase.entering = true) :
    Inv cfg (pauseCancelled s) := by
  obtain ⟨_, _, htask⟩ := h.entering hphase
  have hkeeps := h.not_keeps hphase
  exact ⟨h.resumeIssued, by simp [WithStepping.pauseCancelled, Phase.entering],
    by simp [WithStepping.pauseCancelled], by simp [WithStepping.pauseCancelled],
    by simp [WithStepping.pauseCancelled], by simp [WithStepping.pauseCancelled],
    by simp [WithStepping.pauseCancelled], fun hk => absurd (hkeeps.symm.trans hk) (by decide),
    fun hne => absurd htask hne⟩

theorem Inv.pauseFailed (h : Inv cfg s) (hphase : s.phase.entering = true) (message : String)
    (alive : Option Bool) : Inv cfg (pauseFailed s message alive) := by
  obtain ⟨_, hbody, htask⟩ := h.entering hphase
  have hkeeps := h.not_keeps hphase
  exact ⟨h.resumeIssued, by simp [WithStepping.pauseFailed, Phase.entering],
    by simp [WithStepping.pauseFailed], by simp [WithStepping.pauseFailed],
    by simp [WithStepping.pauseFailed], by simp [WithStepping.pauseFailed],
    fun _ => ⟨⟨message, alive, rfl⟩, hbody, htask⟩,
    fun hk => absurd (hkeeps.symm.trans hk) (by decide), fun hne => absurd htask hne⟩

theorem Inv.pauseTimedOut (h : Inv cfg s) (hphase : s.phase.entering = true) (text : String)
    (alive : Bool) : Inv cfg (pauseTimedOut cfg s text alive) := by
  unfold WithStepping.pauseTimedOut
  split
  · exact h.pauseFailed hphase _ _
  · exact h.pauseFailed hphase _ _

/-- A step of the resume task. -/
theorem Inv.resumeStep (h : Inv cfg s) {task : ResumeTask} {issued : List Command}
    (hstarted : s.resumeTask ≠ .absent) (htask : task ≠ .absent)
    (hissued : .resume ∈ issued ↔ task.hasIssued = true) :
    Inv cfg { s with resumeTask := task, issued := issued } := by
  have hconfirmed := h.resumed hstarted
  have hkeeps : keepsState cfg s = false := by
    cases hk : keepsState cfg s with
    | false => rfl
    | true =>
      have hnone := (h.kept hk).2.1
      rw [hconfirmed] at hnone
      exact absurd hnone (by decide)
  refine ⟨hissued, ?_, ?_, ?_, h.shielding, fun _ => Or.inr htask, ?_, ?_, fun _ => hconfirmed⟩
  · exact fun hp => absurd (h.entering hp).2.2 hstarted
  · intro hp
    exact absurd (h.entering (by rw [hp]; rfl)).2.2 hstarted
  · exact fun hp => absurd (h.body hp).1 hstarted
  · simp [hconfirmed]
  · exact fun hk => absurd (hkeeps.symm.trans hk) (by decide)

/-- The resume task goes on behind its command. -/
theorem Inv.resumeGoesOn (h : Inv cfg s) {task : ResumeTask}
    (hissued : s.resumeTask.hasIssued = true) (htask : task.hasIssued = true) :
    Inv cfg { s with resumeTask := task } := by
  have hne : ∀ task : ResumeTask, task.hasIssued = true → task ≠ .absent := by
    rintro task hhas rfl
    cases hhas
  exact h.resumeStep (hne _ hissued) (hne _ htask)
    (iff_of_true (h.resumeIssued.mpr hissued) htask)

/-- Leaving a body whose state is kept. -/
theorem Inv.bodyKept (h : Inv cfg s) (hphase : s.phase = .body) (hkeeps : keepsState cfg s = true)
    (exit : Exit) : Inv cfg { s with phase := .exited exit } := by
  obtain ⟨htask, _⟩ := h.body hphase
  obtain ⟨hissued, hpause, _⟩ := h.kept hkeeps
  exact ⟨h.resumeIssued, by simp [Phase.entering], by simp, by simp, by simp, by simp [hpause],
    by simp [hpause], fun _ => ⟨hissued, hpause, rfl⟩, fun hne => absurd htask hne⟩

/-- Leaving a body that is to be followed by a resume. -/
theorem Inv.bodyPaused (h : Inv cfg s) (hphase : s.phase = .body)
    (hkeeps : keepsState cfg s = false) (b : BodyExit) :
    Inv cfg { s with phase := .shielding b, resumeTask := .scheduled } := by
  obtain ⟨htask, hor⟩ := h.body hphase
  have hconfirmed : s.pauseOutcome = some .confirmed := by
    rcases hor with hk | hconfirmed
    · exact absurd (hkeeps.symm.trans hk) (by decide)
    · exact hconfirmed
  refine ⟨?_, by simp [Phase.entering], by simp, by simp, fun _ _ => hconfirmed,
    fun _ => Or.inr (by simp), by simp [hconfirmed],
    fun hk => absurd (hkeeps.symm.trans hk) (by decide), fun _ => hconfirmed⟩
  rw [h.resumeIssued, htask]
  simp [ResumeTask.hasIssued]

/-- Leaving the shield. -/
theorem Inv.leaveShield (h : Inv cfg s) {b : BodyExit} (hphase : s.phase = .shielding b)
    (exit : Exit) : Inv cfg { s with phase := .exited exit } := by
  have hconfirmed := h.shielding b hphase
  refine ⟨h.resumeIssued, by simp [Phase.entering], by simp, by simp, by simp, ?_,
    by simp [hconfirmed], ?_, h.resumed⟩
  · intro _
    rcases h.confirmed hconfirmed with hbody | htask
    · rw [hphase] at hbody
      exact absurd hbody (by simp)
    · exact Or.inr htask
  · intro hk
    have hnone := (h.kept hk).2.1
    rw [hconfirmed] at hnone
    exact absurd hnone (by decide)

/-- The call is cancelled in the probe: nothing was paused, so there is nothing to resume. -/
theorem Inv.probeCancelled (h : Inv cfg s) (hphase : s.phase.entering = true) :
    Inv cfg (apply cfg s (.probed .cancelled)) := by
  obtain ⟨hpause, _, htask⟩ := h.entering hphase
  have hkeeps := h.not_keeps hphase
  exact ⟨h.resumeIssued, by simp [apply, Phase.entering], by simp [apply], by simp [apply],
    by simp [apply], by simp [apply, hpause], by simp [apply, hpause],
    fun hk => absurd (hkeeps.symm.trans hk) (by decide), fun hne => absurd htask hne⟩

/-- Without an answer of the probe the call goes by what was said before. -/
theorem Inv.probeUnanswered (h : Inv cfg s) (hphase : s.phase = .probing) :
    Inv cfg (WithStepping.afterProbe cfg s) := by
  have hsaid := (h.probing hphase).2
  have hafter := h.afterProbe hphase none
  rwa [← hsaid] at hafter

/-- Every await outcome keeps the invariant. -/
theorem inv_apply {e : Event} (h : Inv cfg s) (he : enabled cfg s e = true) :
    Inv cfg (apply cfg s e) := by
  -- One case for each await: on the way in, of the body, of the resume task, and of the context
  -- that waits for that task at its end.
  cases e with
  | probed r =>
    have hphase : s.phase = .probing := by
      cases r <;> simp_all [enabled]
    cases r with
    | answered status => exact h.afterProbe hphase _
    | timedOut text => exact h.probeUnanswered hphase
    | raised text => exact h.probeUnanswered hphase
    | cancelled => exact h.probeCancelled (by rw [hphase]; rfl)
  | pauseProbed r =>
    have hphase : s.phase = .pauseProbing := by simpa [enabled] using he
    have hentering : s.phase.entering = true := by rw [hphase]; rfl
    have hsend (status : Option Dict) :
        Inv cfg (sendStepping { s with lastStatus := status }) := by
      refine h.pausing hentering ⟨rfl, by simp [sendStepping]⟩ ⟨rfl, rfl, rfl, rfl⟩ ?_
      simp [sendStepping]
    cases r with
    | answered status => exact hsend (some status)
    | timedOut text => exact hsend none
    | raised text => exact hsend none
    | cancelled => exact h.pauseCancelled hentering
  | steppingSent r =>
    have hphase : s.phase = .pauseSending := by simpa [enabled] using he
    have hentering : s.phase.entering = true := by rw [hphase]; rfl
    cases r with
    | sent => exact h.pausing hentering ⟨rfl, by simp [apply]⟩ ⟨rfl, rfl, rfl, rfl⟩ Iff.rfl
    | raised text => exact h.pauseFailed hentering _ _
    | cancelled => exact h.pauseCancelled hentering
  | pausePolled r deadline alive =>
    have hphase : s.phase = .pausePolling := by simpa [enabled] using he
    have hentering : s.phase.entering = true := by rw [hphase]; rfl
    cases r with
    | answered status =>
      simp only [apply]
      split
      · exact h.pauseConfirmed hentering
      · split
        · exact h.pauseTimedOut hentering _ _
        · exact h.pausing hentering ⟨rfl, by simp⟩ ⟨rfl, rfl, rfl, rfl⟩ Iff.rfl
    | timedOut text => exact h.pauseTimedOut hentering _ _
    | raised text => exact h.pauseFailed hentering _ _
    | cancelled => exact h.pauseCancelled hentering
  | pauseSlept cancelled =>
    have hphase : s.phase = .pauseSleeping := by simpa [enabled] using he
    have hentering : s.phase.entering = true := by rw [hphase]; rfl
    cases cancelled with
    | true => exact h.pauseCancelled hentering
    | false => exact h.pausing hentering ⟨rfl, by simp [apply]⟩ ⟨rfl, rfl, rfl, rfl⟩ Iff.rfl
  | bodyDone b =>
    have hphase : s.phase = .body := by simpa [enabled] using he
    simp only [apply]
    split
    · rename_i hkeeps
      exact h.bodyKept hphase hkeeps _
    · rename_i hkeeps
      exact h.bodyPaused hphase (by simpa using hkeeps) b
  | resumeStarts =>
    have htask : s.resumeTask = .scheduled := by simpa [enabled] using he
    exact h.resumeStep (by simp [htask]) (by simp) (by simp [ResumeTask.hasIssued])
  | resumeSent sent =>
    have htask : s.resumeTask = .sending := by simpa [enabled] using he
    have hissued : s.resumeTask.hasIssued = true := by rw [htask]; rfl
    simp only [apply]
    split
    · exact h.resumeGoesOn hissued rfl
    · split
      · exact h.resumeGoesOn hissued rfl
      · exact h.resumeGoesOn hissued rfl
  | broadcastAwaited confirmed =>
    have htask : s.resumeTask = .awaitingBroadcast := by simpa [enabled] using he
    have hissued : s.resumeTask.hasIssued = true := by rw [htask]; rfl
    cases confirmed with
    | true => exact h.resumeGoesOn hissued rfl
    | false => exact h.resumeGoesOn hissued rfl
  | resumePolled r deadline =>
    have htask : s.resumeTask = .polling := by simpa [enabled] using he
    have hissued : s.resumeTask.hasIssued = true := by rw [htask]; rfl
    cases r with
    | answered status =>
      simp only [apply]
      split
      · exact h.resumeGoesOn hissued rfl
      · split
        · exact h.resumeGoesOn hissued rfl
        · exact h.resumeGoesOn hissued rfl
    | timedOut text => exact h.resumeGoesOn hissued rfl
    | raised text => exact h.resumeGoesOn hissued rfl
    | cancelled => exact h.resumeGoesOn hissued rfl
  | resumeSlept =>
    have htask : s.resumeTask = .sleeping := by simpa [enabled] using he
    exact h.resumeGoesOn (by rw [htask]; rfl) rfl
  | shieldDone =>
    simp only [apply]
    split
    · rename_i b ok hphase _
      exact h.leaveShield hphase _
    · exact h
  | callerCancelled =>
    simp only [enabled] at he
    split at he
    · rename_i b hphase
      exact h.leaveShield hphase _
    · exact absurd he (by decide)

end Steps

/-! ## Runs -/

/-- The invariant holds in every run of the context. -/
theorem inv_of_reachable {cfg : Config} {s : State} (h : (machine cfg).Reachable init s) :
    Inv cfg s := by
  have hinit : Inv cfg init := by
    constructor <;> simp [init, ResumeTask.hasIssued, keepsState]
  refine Machine.Reachable.invariant hinit (fun t e u ht hstep => ?_) h
  obtain ⟨he, rfl⟩ := machine_step_eq_some_iff.mp hstep
  exact inv_apply ht he

/-- What the context has done about the run state when it has exited. -/
structure RunStateRestored (cfg : Config) (s : State) : Prop where
  /-- After a confirmed pause a resume was issued, or the shielded task that issues it
  as its first step has been started. -/
  resumed : s.pauseOutcome = some .confirmed → .resume ∈ s.issued ∨ s.resumeTask = .scheduled
  /-- A pause that failed is final: no body and no resume. -/
  failed : s.pauseOutcome = some .failed →
    (∃ message alive, s.phase = .exited (.steppingFailed message alive)) ∧
      s.bodyEntered = false ∧ .resume ∉ s.issued ∧ s.resumeTask = .absent
  /-- A CPU reported as stepping and asked to stay so gets no command. -/
  kept : cfg.preserveState = true → s.probeSaid = some true →
    s.issued = [] ∧ s.resumeTask = .absent

/-- On every exit of the context the run state was seen to. -/
theorem runState_restored {cfg : Config} {s : State} (exit : Exit)
    (h : (machine cfg).Reachable init s) (hexit : s.phase = .exited exit) :
    RunStateRestored cfg s := by
  have hinv := inv_of_reachable h
  constructor
  · intro hconfirmed
    rcases hinv.confirmed hconfirmed with hbody | htask
    · rw [hexit] at hbody
      exact absurd hbody (by simp)
    · by_cases hscheduled : s.resumeTask = .scheduled
      · exact Or.inr hscheduled
      · left
        rw [hinv.resumeIssued]
        cases hcase : s.resumeTask <;> simp_all [ResumeTask.hasIssued]
  · intro hfailed
    obtain ⟨hexited, hbody, htask⟩ := hinv.failed hfailed
    refine ⟨hexited, hbody, ?_, htask⟩
    rw [hinv.resumeIssued, htask]
    decide
  · intro hpreserve hsaid
    have hkeeps : keepsState cfg s = true := by simp [keepsState, hpreserve, hsaid]
    obtain ⟨hissued, hpause, _⟩ := hinv.kept hkeeps
    refine ⟨hissued, ?_⟩
    by_cases htask : s.resumeTask = .absent
    · exact htask
    · have hconfirmed := hinv.resumed htask
      rw [hpause] at hconfirmed
      exact absurd hconfirmed (by decide)

/-- A running CPU, no known process, and no observer. -/
def runningConfig : Config where
  preserveState := true
  pid := none
  hasObserver := false
  timeoutMs := 3000
  running := true

/-- A `cpu.status` answer. -/
def statusOf (stepping : Bool) : Dict := [(.str "stepping", .bool stepping)]

/-- Pause, run a body that raises, and leave when the resume is confirmed. -/
def resumedRun : List Event :=
  [.probed (.answered (statusOf false)), .pauseProbed (.answered (statusOf false)),
   .steppingSent .sent, .pausePolled (.answered (statusOf true)) false true, .bodyDone .raised,
   .resumeStarts, .resumeSent true, .resumePolled (.answered (statusOf false)) false, .shieldDone]

/-- The run above issues its resume. -/
theorem runState_restored_resumedRun :
    ∃ s, (machine runningConfig).run init resumedRun = some s ∧
      RunStateRestored runningConfig s ∧ s.issued = [.stepping, .resume] :=
  ⟨_, rfl, runState_restored .bodyRaised (Machine.reachable_of_run resumedRun rfl) rfl, rfl⟩

/-- The pause command is sent and its confirmation does not come in time. -/
def unconfirmedRun : List Event :=
  [.probed (.answered (statusOf false)), .pauseProbed (.answered (statusOf false)),
   .steppingSent .sent, .pausePolled (.answered (statusOf false)) true true]

/-- A CPU that ran on entry was sent a pause command, and the context has exited without
a resume and without a task that would issue one. -/
theorem paused_and_left :
    ∃ s exit, (machine runningConfig).Reachable init s ∧ s.phase = .exited exit ∧
      .stepping ∈ s.issued ∧ .resume ∉ s.issued ∧ s.resumeTask = .absent :=
  ⟨_, _, Machine.reachable_of_run unconfirmedRun rfl, rfl, by decide, by decide, rfl⟩

end WithStepping
