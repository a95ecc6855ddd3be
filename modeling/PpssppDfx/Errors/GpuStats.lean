import PpssppDfx.Diagnostics.Attribution
import PpssppDfx.Errors.Translate

/-!
# The error of the GPU counters

`ppsspp_gpu_stats` adds the attributed cause to the error of a timeout. It does so where it
catches a `WsTimeout` or a `CpuFreezeSuspected`; but the timeout of the transport is a plain
exception, which becomes one of these only outside of the tool, where every tool is translated.

## Main definitions

* `Errors.gpuStats` — the tool
* `Errors.gpuStatsBody` — the tool without its handlers

## Main results

* `Errors.gpuStats_eq_translated_body` — the handlers never change an error
-/

set_option autoImplicit false

namespace Errors

open Python Diagnostics

/-- What a tool raises before it is translated. -/
inductive Raised where
  | tool (e : ToolError)
  | exception (e : Exc)

/-- The `ToolError`s of `session_client()`. -/
inductive SessionError where
  | notFound
  | expired
  | busy
  | connectFailed

/-- The class of an error of `session_client()`. -/
def SessionError.cls : SessionError → ErrorClass
  | .notFound => .sessionNotFound
  | .expired => .sessionExpired
  | .busy => .sessionBusy
  | .connectFailed => .wsConnectFailed

/-- How `session_client()` ends when it yields no client. -/
inductive SessionFailure where
  | tool (error : SessionError) (message : String)
  | exception (e : Exc)

/-- The exception that leaves `session_client()`. -/
def SessionFailure.raised : SessionFailure → Raised
  | .tool error message => .tool ⟨error.cls, message⟩
  | .exception e => .exception e

/-- `isinstance(exc, OSError)`: timeouts and lost connections are. -/
def Kind.isOSError : Kind → Bool
  | .steppingFailed _ _ => false
  | .timeout => true
  | .connection => true
  | .other osError => osError

/-- The `diagnostic_hint` of `gpu.stats.get` in the contract. -/
def gpuStatsDiagnosticHint : String :=
  "Requires CPU running (not stepping). PPSSPP pushes stats on the next GPU flip; if CPU is " ++
    "paused, no frames are rendered and the ticketed wait times out. The MCP layer (batch 1) " ++
    "verifies CPU state first and raises CpuStateError instead of waiting for timeout."

/-- `status.get("stepping") is True`. -/
def isStepping (status : Dict) : Bool :=
  match status.get? "stepping" with
  | some (.bool b) => b
  | _ => false

/-- `status.get("ticks")`; `none` is `None`. -/
def ticksOf (status : Dict) : Option Value :=
  match status.get? "ticks" with
  | some .none => none
  | other => other

/-- `str` of an optional value. -/
def ticksText (ticks : Option Value) : String := (ticks.map Value.text).getD "None"

/-- Both ticks are there, and they are equal by Python's equality of two values. -/
def ticksUnchanged (same : Value → Value → Bool) : Option Value → Option Value → Bool
  | some ticks0, some ticks1 => same ticks0 ticks1
  | _, _ => false

/-- The two probes of `require_running()`. -/
def requireRunning (same : Value → Value → Bool) (event hint : String)
    (status0 status1 : Except Exc Dict) : Except Raised Unit :=
  match status0 with
  -- other failures of a probe are left to the call
  | .error e => if e.kind.isOSError then .error (.exception e) else .ok ()
  | .ok status0 =>
    match status1 with
    | .error e => if e.kind.isOSError then .error (.exception e) else .ok ()
    | .ok status1 =>
      let ticks0 := ticksOf status0
      let ticks1 := ticksOf status1
      let probes := "[stepping0=" ++ boolText (isStepping status0) ++ ", stepping1=" ++
        boolText (isStepping status1)
      if isStepping status0 || isStepping status1 then
        .error (.tool ⟨.cpuStateError, event ++ " requires CPU running (not stepping): " ++ hint ++
          " " ++ probes ++ ", ticks0=" ++ ticksText ticks0 ++ ", ticks1=" ++ ticksText ticks1 ++
          ", 50ms probe]"⟩)
      else if ticksUnchanged same ticks0 ticks1 then
        .error (.tool ⟨.cpuStateError, event ++ " requires CPU running: ticks unchanged (" ++
          ticksText ticks0 ++ " == " ++ ticksText ticks1 ++ ") after 50ms, breakpoint pause " ++
          "suspected but stepping field didn't report " ++ probes ++ "]"⟩)
      else .ok ()

/-- What a run of the tool meets. -/
structure GpuStatsRun where
  /-- The failure of `session_client()`, if it fails. -/
  session : Option SessionFailure
  status0 : Except Exc Dict
  status1 : Except Exc Dict
  /-- The reply to `gpu.stats.get`, which need not be an object. -/
  reply : Except Exc Value
  /-- The diagnostics of the transport of the client. -/
  diagnostics : Option CallDiagnostics
  /-- `is_rendering()` of the observer. -/
  rendering : Option Bool

variable (same : Value → Value → Bool)

/-- The body of the tool without its handlers. -/
def gpuStatsBody (run : GpuStatsRun) : Except Raised Dict :=
  match run.session with
  | some failure => .error failure.raised
  | none => do
    requireRunning same "gpu.stats.get" gpuStatsDiagnosticHint run.status0 run.status1
    match run.reply with
    | .error e => .error (.exception e)
    | .ok (.dict raw) => .ok raw
    | .ok _ => .ok []

/-- `_attribution_suffix(client_obj)`: there is a client once the session is entered. -/
def GpuStatsRun.suffix (run : GpuStatsRun) : String :=
  attributionSuffix (if run.session.isSome then none else run.diagnostics) "gpu.stats.get"

/-- `_rendering_state(client_obj)`. -/
def GpuStatsRun.renderingState (run : GpuStatsRun) : Option Bool :=
  if run.session.isSome then none else run.rendering

/-- The handlers of the tool. -/
def handleGpuStats (run : GpuStatsRun) : Raised → Raised
  | .exception e => .exception e
  | .tool e =>
    if e.cls = .wsTimeout then .tool ⟨.wsTimeout, e.message ++ run.suffix⟩
    else if e.cls.code = "CPU_FREEZE_SUSPECTED" then
      if run.renderingState = some false then
        .tool ⟨.wsTimeout, e.message ++ " — Hint: timed out, PID alive + game running but NO " ++
          "frames are being produced, so this is NOT a CPU freeze: the renderer or GPU producer " ++
          "is stalled (check for a modal dialog, a black screen, or a GPU pipeline stall). " ++
          hintFor .noProducer⟩
      else if run.suffix ≠ "" then .tool ⟨e.cls, e.message ++ run.suffix⟩
      else .tool e
    else .tool e

variable (isWord : Char → Bool) (lower : String → String) (ctx : Context)

/-- `translate_tool_errors`. -/
def translateToolErrors {α : Type} : Except Raised α → Except ToolError α
  | .ok a => .ok a
  | .error (.tool e) => .error e
  | .error (.exception e) => .error (toToolError isWord lower ctx e)

/-- The tool `ppsspp_gpu_stats`. -/
def gpuStats (run : GpuStatsRun) : Except ToolError Dict :=
  translateToolErrors isWord lower ctx ((gpuStatsBody same run).mapError (handleGpuStats run))

/-! ## What is raised inside -/

variable {same isWord lower ctx}

/-- The error is not one that the handlers change. -/
def Raised.unhandled : Raised → Prop
  | .exception _ => True
  | .tool e => e.cls ≠ .wsTimeout ∧ e.cls ≠ .cpuFreezeSuspected

theorem handleGpuStats_of_unhandled {run : GpuStatsRun} {raised : Raised}
    (h : raised.unhandled) : handleGpuStats run raised = raised := by
  cases raised with
  | exception e => rfl
  | tool e =>
    obtain ⟨cls, message⟩ := e
    obtain ⟨htimeout, hfreeze⟩ := h
    cases cls <;> first | rfl | exact absurd rfl htimeout | exact absurd rfl hfreeze

theorem unhandled_of_requireRunning {event hint : String} {status0 status1 : Except Exc Dict}
    {raised : Raised} (h : requireRunning same event hint status0 status1 = .error raised) :
    raised.unhandled := by
  unfold requireRunning at h
  split at h
  · split at h
    · obtain rfl := Except.error.inj h
      trivial
    · cases h
  · split at h
    · split at h
      · obtain rfl := Except.error.inj h
        trivial
      · cases h
    · simp only at h
      split at h
      · obtain rfl := Except.error.inj h
        exact ⟨ErrorClass.noConfusion, ErrorClass.noConfusion⟩
      · split at h
        · obtain rfl := Except.error.inj h
          exact ⟨ErrorClass.noConfusion, ErrorClass.noConfusion⟩
        · cases h

theorem unhandled_of_gpuStatsBody {run : GpuStatsRun} {raised : Raised}
    (h : gpuStatsBody same run = .error raised) : raised.unhandled := by
  unfold gpuStatsBody at h
  split at h
  · rename_i failure _
    obtain rfl := Except.error.inj h
    cases failure with
    | exception e => trivial
    | tool error message => cases error <;> exact ⟨ErrorClass.noConfusion, ErrorClass.noConfusion⟩
  · cases hprobes : requireRunning same "gpu.stats.get" gpuStatsDiagnosticHint run.status0
      run.status1 with
    | error e =>
      rw [hprobes] at h
      obtain rfl := Except.error.inj h
      exact unhandled_of_requireRunning hprobes
    | ok _ =>
      rw [hprobes] at h
      cases hreply : run.reply with
      | error e =>
        simp only [hreply, bind, Except.bind] at h
        obtain rfl := Except.error.inj h
        trivial
      | ok value =>
        simp only [hreply, bind, Except.bind] at h
        cases value <;> cases h

/-- However the session, the probes, the reply, the diagnostics and the observer are, the tool
ends as if it had no handlers: no error of it names an attributed cause, and none is checked
against the frames that are rendered. -/
theorem gpuStats_eq_translated_body (run : GpuStatsRun) :
    gpuStats same isWord lower ctx run =
      translateToolErrors isWord lower ctx (gpuStatsBody same run) := by
  unfold gpuStats
  cases hbody : gpuStatsBody same run with
  | ok raw => rfl
  | error raised =>
    rw [Except.mapError, handleGpuStats_of_unhandled (unhandled_of_gpuStatsBody hbody)]

end Errors
