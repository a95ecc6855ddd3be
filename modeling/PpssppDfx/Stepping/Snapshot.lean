import PpssppDfx.Stepping.WithStepping

/-!
# A snapshot of a frame

`frame_snapshot` pauses the CPU unless it is stepping, reads the program counter, the registers and
the probes, and resumes the CPU that it has paused. An exception among the reads is answered with a
resume.

The calls of the client run as in `WithStepping`: `pause()` as on the way into a context,
`safe_get_pc()` as a context, `resume()` as in the task of a context. Reading the registers, or all
the probes, is one await that sends no commands.

`fire_and_forget` may raise before it sends anything, and a send that is cancelled may have written
its message. A command counts only if it was sent.

## Main definitions

* `FrameSnapshot.machine` — one call, with the outcomes of its awaits as labels
* `FrameSnapshot.Restored` — the CPU was commanded back to its run state
* `FrameSnapshot.Harmless` — an outcome that does not keep the call from doing so
-/

set_option autoImplicit false

namespace FrameSnapshot

open Semantics
open WithStepping (Command ResumeTask BodyExit CallResult)

/-! ## The call -/

/-- What a call is given, and the run state before it. -/
structure Config where
  pid : Option ℕ
  hasObserver : Bool
  wantRegisters : Bool
  wantProbes : Bool
  running : Bool

/-- The context around the program counter. -/
def Config.context (cfg : Config) : WithStepping.Config where
  preserveState := true
  pid := cfg.pid
  hasObserver := cfg.hasObserver
  timeoutMs := 3000
  running := cfg.running

inductive Exit where
  | returned
  | raised
  | cancelled
  deriving DecidableEq

/-- The await that the call stands at. -/
inductive Phase where
  | opening
  | pausing (p : WithStepping.State)
  | reading (p : WithStepping.State)
  | registers
  | probing
  /-- `resume()` after an exception, which is raised again. -/
  | recovering (task : ResumeTask)
  | resuming (task : ResumeTask)
  /-- The call was cancelled, and the task in the shield of its context has still to send its
  command. -/
  | cutOff
  | exited (exit : Exit)

structure State where
  phase : Phase
  wasStepping : Bool
  /-- The commands that were sent, oldest first. -/
  sent : List Command

def init : State := ⟨.opening, false, []⟩

/-- `pause()`, at its first await. -/
def pauseStart : WithStepping.State := { WithStepping.init with phase := .pauseProbing }

/-- `resume()`, as a task that no context waits for. -/
def resumeOnly (task : ResumeTask) : WithStepping.State :=
  { WithStepping.init with phase := .exited .returned, resumeTask := task }

/-- The task has still to send its command. -/
def unsent : ResumeTask → Bool
  | .scheduled | .sending => true
  | _ => false

/-- What is sent by an outcome in a call of the client. -/
def sends : WithStepping.Event → List Command
  | .steppingSent .sent => [.stepping]
  | .resumeSent true => [.resume]
  | _ => []

inductive Event where
  | opened (r : CallResult)
  /-- An await of `pause()`, `safe_get_pc()` or `resume()`. -/
  | client (e : WithStepping.Event)
  /-- The call is cancelled in the send of `cpu.stepping`, which has written its message. -/
  | pauseCutOff
  /-- The registers, or the probes, were read. -/
  | captured (b : BodyExit)
  /-- The call is cancelled in `resume()`, perhaps in a send that has written its message. -/
  | resumeCancelled (written : Bool)
  /-- The send of the task in the shield ends. -/
  | shieldSent (ok : Bool)

section Code

variable (cfg : Config) (s : State)

def exit (e : Exit) : State := { s with phase := .exited e }

/-- `except Exception`. -/
def fails : State :=
  if s.wasStepping then exit s .raised else { s with phase := .recovering .sending }

def finish : State :=
  if s.wasStepping then exit s .returned else { s with phase := .resuming .sending }

def afterRegisters : State := if cfg.wantProbes then { s with phase := .probing } else finish s

def afterRead : State :=
  if cfg.wantRegisters then { s with phase := .registers } else afterRegisters cfg s

/-- `pause()` has gone on. It stands outside of the `try`. -/
def paused (p : WithStepping.State) : State :=
  match p.phase with
  | .body => { s with phase := .reading WithStepping.init }
  | .exited .cancelled => exit s .cancelled
  | .exited _ => exit s .raised
  | _ => { s with phase := .pausing p }

/-- `safe_get_pc()` is over. -/
def leave (p : WithStepping.State) : WithStepping.Exit → State
  | .returned => afterRead cfg s
  -- `CancelledError` is no `Exception`
  | .cancelled => if unsent p.resumeTask then { s with phase := .cutOff } else exit s .cancelled
  | _ => fails s

/-- `safe_get_pc()` has gone on. -/
def read (p : WithStepping.State) : State :=
  match p.phase with
  | .exited e => leave cfg s p e
  | _ => { s with phase := .reading p }

/-- `resume()` has gone on. -/
def resumed (phase : ResumeTask → Phase) (ok failed : Exit) : ResumeTask → State
  | .finished true => exit s ok
  | .finished false => exit s failed
  | task => { s with phase := phase task }

/-- What can happen in a context, whichever state the CPU is in on entry. -/
def happens (p : WithStepping.State) (e : WithStepping.Event) : Bool :=
  WithStepping.enabled { cfg.context with running := true } p e ||
    WithStepping.enabled { cfg.context with running := false } p e

/-- The outcomes that can happen. The first answer tells the run state before the call. -/
def enabled : Event → Bool
  | .opened r =>
    match s.phase, r with
    | .opening, .answered status => WithStepping.reportsStepping status == !cfg.running
    | .opening, _ => true
    | _, _ => false
  | .client e =>
    match s.phase with
    | .pausing p => WithStepping.enabled cfg.context p e
    | .reading p => happens cfg p e
    | .recovering task | .resuming task => WithStepping.enabled cfg.context (resumeOnly task) e
    | _ => false
  | .pauseCutOff =>
    match s.phase with
    | .pausing p => WithStepping.enabled cfg.context p (.steppingSent .cancelled)
    | .reading p => happens cfg p (.steppingSent .cancelled)
    | _ => false
  | .captured _ =>
    match s.phase with
    | .registers | .probing => true
    | _ => false
  | .resumeCancelled written =>
    match s.phase with
    -- only the send itself can have written the message by then
    | .recovering task | .resuming task => !written || task == .sending
    | _ => false
  | .shieldSent _ =>
    match s.phase with
    | .cutOff => true
    | _ => false

/-- The code after an await of the client, up to the next one. -/
def advance (e : WithStepping.Event) : State :=
  match s.phase with
  | .pausing p => paused s (WithStepping.apply cfg.context p e)
  | .reading p => read cfg s (WithStepping.apply cfg.context p e)
  -- whatever the resume does, the first exception is raised again
  | .recovering task => resumed s .recovering .raised .raised
      (WithStepping.apply cfg.context (resumeOnly task) e).resumeTask
  | .resuming task => resumed s .resuming .returned .raised
      (WithStepping.apply cfg.context (resumeOnly task) e).resumeTask
  | _ => s

/-- The code from an await to the next one. -/
def apply : Event → State
  | .opened r =>
    match r with
    | .answered status =>
      -- a CPU that steps already is not paused
      if WithStepping.reportsStepping status then
        { s with phase := .reading WithStepping.init, wasStepping := true }
      else { s with phase := .pausing pauseStart }
    | .cancelled => exit s .cancelled
    | _ => exit s .raised
  | .client e => advance cfg { s with sent := s.sent ++ sends e } e
  | .pauseCutOff => advance cfg { s with sent := s.sent ++ [.stepping] } (.steppingSent .cancelled)
  | .captured .raised => fails s
  | .captured .cancelled => exit s .cancelled
  | .captured .returned =>
    match s.phase with
    | .registers => afterRegisters cfg s
    | .probing => finish s
    | _ => s
  | .resumeCancelled written =>
    exit { s with sent := if written then s.sent ++ [.resume] else s.sent } .cancelled
  | .shieldSent ok =>
    exit { s with sent := if ok then s.sent ++ [.resume] else s.sent } .cancelled

/-- One call. -/
def machine : Machine State Event where
  step s e := if enabled cfg s e then some (apply cfg s e) else none

end Code

theorem machine_step_eq_some_iff {cfg : Config} {s t : State} {e : Event} :
    (machine cfg).step s e = some t ↔ enabled cfg s e = true ∧ apply cfg s e = t := by
  simp [machine]

/-! ## Run states -/

/-- The run state that the commands ask for: that of the last one. -/
def commanded (running : Bool) (sent : List Command) : Bool :=
  match sent.getLast? with
  | none => running
  | some .stepping => false
  | some .resume => true

/-- The CPU was commanded back to the run state that it had before the call. -/
def Restored (cfg : Config) (s : State) : Prop := commanded cfg.running s.sent = cfg.running

instance (cfg : Config) (s : State) : Decidable (Restored cfg s) :=
  inferInstanceAs (Decidable (_ = _))

/-- `cpu.resume` was the last command. -/
def Resumed (s : State) : Prop := s.sent.getLast? = some .resume

/-- `pause()` fails, or is cancelled, after its command was sent. -/
def PauseFails : WithStepping.Event → Prop
  | .pausePolled (.answered status) deadline _ =>
    WithStepping.steppingIs status true = false ∧ deadline = true
  | .pausePolled _ _ _ => True
  | .pauseSlept cancelled => cancelled = true
  | _ => False

/-- The call is cancelled in a context before the end of a body after which the CPU is to be
resumed. -/
def Cancels (cfg : Config) (p : WithStepping.State) : WithStepping.Event → Prop
  | .probed .cancelled | .pauseProbed .cancelled | .steppingSent .cancelled => True
  | .pausePolled .cancelled _ _ => True
  | .pauseSlept cancelled => cancelled = true
  | .bodyDone .cancelled => WithStepping.keepsState cfg.context p = true
  | _ => False

/-- The call is cancelled in a context that has not resumed the CPU and is not going to. -/
def Abandons (cfg : Config) (s : State) (p : WithStepping.State) : WithStepping.Event → Prop
  -- the task in the shield fails to send its command, in a call that was cancelled in the body
  | .resumeSent ok => ok = false ∧ p.phase = .shielding .cancelled
  -- or it has failed, and the call is cancelled behind it
  | .callerCancelled => unsent p.resumeTask = false ∧ ¬ Resumed s
  | e => Cancels cfg p e

/-- An outcome that does not keep the call from restoring the run state. -/
def Harmless (cfg : Config) (s : State) : Event → Prop
  | .opened _ => True
  | .client e =>
    match s.phase with
    | .pausing _ => ¬ PauseFails e
    | .reading p => if s.wasStepping then e ≠ .resumeSent true else ¬ Abandons cfg s p e
    | .recovering _ | .resuming _ => e = .resumeSent false → Resumed s
    | _ => True
  | .pauseCutOff => s.wasStepping = true
  | .captured b => b = .cancelled → s.wasStepping = true ∨ Resumed s
  | .resumeCancelled written =>
    match s.phase with
    | .recovering .sending | .resuming .sending => written = true ∨ Resumed s
    | _ => True
  | .shieldSent ok => ok = !s.wasStepping

end FrameSnapshot
