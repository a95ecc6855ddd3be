import Mathlib.Data.Int.Notation
import Mathlib.Logic.Function.Basic
import PpssppDfx.Semantics.DropOldest
import PpssppDfx.Semantics.Machine

/-!
# Stepping the debuggee

The debug client steps the CPU by a command and a confirmation. The command is fire
and forget; the confirmation is a `cpu.stepping` broadcast, which carries no ticket.
The client reads the program counter and the tick count before the command and
compares each broadcast with them, since a pause produces broadcasts of the same kind.

The machine runs one client against one emulator. Commands on their way are consumed
in any order, broadcasts on their way are delivered in any order or lost to a full
queue, and every wait can time out or be cancelled. Broadcasts are numbered as they
are emitted; the client sees no numbers.

## Main definitions

* `Stepping.buildStepFilter` — the comparison with the state before the command
* `Stepping.judge` — what the retry loop does with one broadcast
* `Stepping.State`, `Stepping.machine` — the client, the emulator and the channel
-/

set_option autoImplicit false

namespace Stepping

open Semantics

/-! ## Filtering broadcasts -/

/-- The `pc` and `ticks` fields of a broadcast or of a `cpu.status` answer. -/
structure Report (τ : Type*) where
  pc : Option ℤ
  ticks : Option τ
  deriving DecidableEq

section Filter

variable {τ : Type*} [DecidableEq τ]

/-- `build_step_filter`: no filter without any known field; otherwise some known
field must differ. -/
def buildStepFilter (pre : Report τ) : Option (Report τ → Bool) :=
  -- a status answer without the fields switches the filter off
  if pre.pc.isNone && pre.ticks.isNone then none
  else some fun msg =>
    let pcChanged := pre.pc.isSome && decide (msg.pc ≠ pre.pc)
    let ticksChanged := pre.ticks.isSome && decide (msg.ticks ≠ pre.ticks)
    pcChanged || ticksChanged

/-- The filter, if there is one, lets the broadcast pass. -/
def accepts (pre msg : Report τ) : Bool :=
  match buildStepFilter pre with
  | none => true
  | some filter => filter msg

end Filter

/-! ## Emulator and client -/

inductive StepKind where
  | stepInto
  | stepOver
  | stepOut
  deriving DecidableEq

/-- The calls of the client that end with a stepping confirmation. -/
inductive CallKind where
  | step (kind : StepKind)
  | runUntil (address : ℤ)
  | nextHle
  deriving DecidableEq

/-- Fire-and-forget commands on their way to the emulator. -/
inductive Command where
  | stepping
  | step (kind : StepKind)
  | runUntil (address : ℤ)
  | nextHle
  deriving DecidableEq

/-- The command of a call. -/
def CallKind.command : CallKind → Command
  | .step kind => .step kind
  | .runUntil address => .runUntil address
  | .nextHle => .nextHle

/-- The call is `step_into` or `step_over`, which advance the CPU by one step. -/
def CallKind.isSingle : CallKind → Bool
  | .step .stepInto => true
  | .step .stepOver => true
  | _ => false

/-- What the machine knows about CPUs: one step of each single-step command, the fields
that reports show, and the reading of a tick count as a float. -/
structure Debuggee (σ τ : Type*) where
  advance : StepKind → σ → σ
  pc : σ → Option ℤ
  ticks : σ → Option τ
  toFloat : τ → τ

/-- A numbered broadcast. -/
structure Broadcast (τ : Type*) where
  serial : ℕ
  report : Report τ

/-- The wait a call stands at. -/
inductive Phase where
  | idle
  /-- Awaiting the first `cpu.status` of `_prepare_for_step`. -/
  | probing
  /-- Awaiting the best-effort `cpu.status` of `pause()`. -/
  | pauseProbing
  /-- `cpu.stepping` was sent; polling until the CPU steps. -/
  | pausing
  /-- Awaiting the `cpu.status` after the pause. -/
  | probingAgain
  /-- The command was sent; waiting for a broadcast. -/
  | confirming (noAdvance : ℕ) (sawBroadcast : Bool)
  /-- Polling `cpu.status` because no broadcast came. -/
  | polling
  deriving DecidableEq

/-- A call that returned: the number of broadcasts emitted before its command was sent,
and the broadcast that confirmed it, if it was one. -/
structure Returned (τ : Type*) where
  call : ℕ
  kind : CallKind
  mark : ℕ
  confirmation : Option (Broadcast τ)

structure State (σ τ : Type*) where
  cpu : σ
  stepping : Bool
  /-- Commands on their way, each with the call that sent it. -/
  inbox : List (Command × ℕ)
  /-- Broadcasts on their way to the client's queue. -/
  wire : List (Broadcast τ)
  /-- Buffered broadcasts that nobody consumed. -/
  queue : List (Broadcast τ)
  /-- Broadcasts that a filtered wait on the transport's queue puts back when it ends. -/
  backlog : List (Broadcast τ)
  emitted : ℕ
  /-- The answer to the `cpu.status` request that the client awaits. -/
  reply : Option (Bool × Report τ)
  phase : Phase
  call : ℕ
  kind : CallKind
  pre : Report τ
  mark : ℕ
  /-- How many steps the commands of a call have advanced the CPU. -/
  advanced : ℕ → ℕ
  returned : List (Returned τ)

/-- No command and no broadcast is on its way or buffered. -/
def init {σ : Type*} (τ : Type*) (cpu : σ) (stepping : Bool) : State σ τ where
  cpu := cpu
  stepping := stepping
  inbox := []
  wire := []
  queue := []
  backlog := []
  emitted := 0
  reply := none
  phase := .idle
  call := 0
  kind := .nextHle
  pre := ⟨none, none⟩
  mark := 0
  advanced := fun _ => 0
  returned := []

def stepMaxNoAdvance : ℕ := 3

def pspCodeRangeLow : ℤ := 0x08800000

def pspCodeRangeHigh : ℤ := 0x0C000000

/-- Capacity of the buffer that confirmations are read from: the observer's
`cpu.stepping` queue, or the transport's queue when no observer runs. -/
def queueMax (observed : Bool) : ℕ := if observed then 64 else 256

section Machine

variable {σ τ : Type*} [DecidableEq τ] (d : Debuggee σ τ) (observed : Bool)

/-- What the emulator reports of a CPU. -/
def reportOf (cpu : σ) : Report τ := ⟨d.pc cpu, d.ticks cpu⟩

/-- Broadcasts that the emulator emitted and nobody consumed. -/
def unread (s : State σ τ) : List (Broadcast τ) := s.wire ++ s.queue ++ s.backlog

/-- Push a `cpu.stepping` broadcast. -/
def emit (s : State σ τ) : State σ τ :=
  { s with
    wire := s.wire ++ [⟨s.emitted, reportOf d s.cpu⟩]
    emitted := s.emitted + 1 }

/-- The pre-step fields as `_prepare_for_step` converts them. -/
def preOf (report : Report τ) : Report τ := ⟨report.pc, report.ticks.map d.toFloat⟩

/-- Send a command for the current call. -/
def send (s : State σ τ) (command : Command) : State σ τ :=
  { s with inbox := s.inbox ++ [(command, s.call)] }

/-- Put the backlog of a filtered wait back. -/
def requeue (s : State σ τ) : State σ τ :=
  { s with
    queue := s.backlog.foldl (pushDropOldest (queueMax observed)) s.queue
    backlog := [] }

/-- A call ends with an exception. -/
def raiseCall (s : State σ τ) : State σ τ :=
  { requeue observed s with phase := .idle, reply := none }

/-- `_validate_step_out_pc` accepts the result. -/
def validResult (kind : CallKind) (result : Report τ) : Bool :=
  match kind, result.pc with
  -- an address outside the range of code is a stack-bottom sentinel
  | .step .stepOut, some pc => decide (pspCodeRangeLow ≤ pc ∧ pc ≤ pspCodeRangeHigh)
  | _, _ => true

/-- A call ends with a result, unless `step_out` rejects it. -/
def finishCall (s : State σ τ) (result : Report τ) (confirmation : Option (Broadcast τ)) :
    State σ τ :=
  if validResult s.kind result then
    { requeue observed s with
      phase := .idle
      reply := none
      returned := s.returned ++ [⟨s.call, s.kind, s.mark, confirmation⟩] }
  else raiseCall observed s

/-- The pre-step state is known: send the command and start to wait. -/
def fire (s : State σ τ) (report : Report τ) : State σ τ :=
  send { s with
    phase := .confirming 0 false
    reply := none
    pre := preOf d report
    mark := s.emitted } s.kind.command

/-- What `_step_with_retry` does with one broadcast. -/
def judge (s : State σ τ) (noAdvance : ℕ) (msg : Broadcast τ) : State σ τ :=
  if accepts s.pre msg.report then finishCall observed s msg.report (some msg)
  else if noAdvance + 1 ≥ stepMaxNoAdvance then raiseCall observed s
  -- the CPU has not moved: the command is sent once more
  else send { s with phase := .confirming (noAdvance + 1) true } s.kind.command

/-- What a filtered wait does with one broadcast. -/
def filterBroadcast (s : State σ τ) (noAdvance : ℕ) (msg : Broadcast τ) : State σ τ :=
  if accepts s.pre msg.report then finishCall observed s msg.report (some msg)
  else
    -- the transport's queue is shared with other readers, the observer's queue is not
    let backlog := if observed then s.backlog else s.backlog ++ [msg]
    { s with phase := .confirming noAdvance true, backlog := backlog }

/-- The client takes the oldest buffered broadcast. -/
def takeBroadcast (s : State σ τ) (noAdvance : ℕ) : State σ τ :=
  match s.queue with
  | [] => s
  | msg :: rest =>
    match s.kind with
    | .step _ => judge observed { s with queue := rest } noAdvance msg
    | _ => filterBroadcast observed { s with queue := rest } noAdvance msg

/-- A wait that ran out of time is final: for steps when they saw a broadcast, for the
other calls when they have a filter. -/
def givesUp (s : State σ τ) (sawBroadcast : Bool) : Bool :=
  match s.kind with
  | .step _ => sawBroadcast
  | _ => (buildStepFilter s.pre).isSome

/-- The wait for a broadcast runs out of time: raise, or poll `cpu.status`. -/
def confirmTimeout (s : State σ τ) (sawBroadcast : Bool) : State σ τ :=
  if givesUp s sawBroadcast then raiseCall observed s
  else { requeue observed s with phase := .polling, reply := none }

/-- The probe of `pause()` is over; its answer changes nothing. -/
def sendPause (s : State σ τ) : State σ τ :=
  send { s with phase := .pausing, reply := none } .stepping

/-- The client reads the answer to its `cpu.status` request. -/
def readStatus (s : State σ τ) (stepping : Bool) (report : Report τ) : State σ τ :=
  match s.phase with
  | .probing =>
    if stepping then fire d s report else { s with phase := .pauseProbing, reply := none }
  -- the answer is kept for an error message only
  | .pauseProbing => sendPause s
  | .pausing =>
    if stepping then { s with phase := .probingAgain, reply := none }
    else { s with reply := none }
  | .probingAgain => fire d s report
  | .polling =>
    if stepping then finishCall observed s report none else { s with reply := none }
  | _ => s

/-- The emulator consumes a command of a call. Commands that need a stepping CPU do
nothing while it runs; those that run the CPU halt it later. -/
def consume (s : State σ τ) (command : Command) (call : ℕ) : State σ τ :=
  match command with
  -- a CPU that is stepping already broadcasts nothing
  | .stepping => if s.stepping then s else emit d { s with stepping := true }
  | .step .stepOut => if s.stepping then { s with stepping := false } else s
  | .step kind =>
    if s.stepping then
      emit d { s with
        cpu := d.advance kind s.cpu
        advanced := Function.update s.advanced call (s.advanced call + 1) }
    else s
  | .runUntil _ => if s.stepping then { s with stepping := false } else s
  | .nextHle => if s.stepping then { s with stepping := false } else s

/-- What the client, the emulator and the channel can do next. -/
inductive Event (σ : Type*) where
  | callStart (kind : CallKind)
  | answerStatus
  | readStatus
  | pauseProbeFails
  | takeBroadcast
  | confirmTimeout
  | callRaises
  | consume (i : ℕ)
  | runs (cpu : σ)
  | halts
  | resumes
  | deliver (i : ℕ)
  | lose (i : ℕ)

/-- The client awaits a `cpu.status` answer. -/
def Phase.awaitsStatus : Phase → Bool
  | .probing => true
  | .pauseProbing => true
  | .pausing => true
  | .probingAgain => true
  | .polling => true
  | _ => false

/-- One step. The CPU resumes by other means only while no call is active. -/
def step (s : State σ τ) : Event σ → Option (State σ τ)
  | .callStart kind =>
    if s.phase = .idle then
      some { s with phase := .probing, reply := none, call := s.call + 1, kind := kind }
    else none
  | .answerStatus =>
    if s.phase.awaitsStatus ∧ s.reply.isNone then
      some { s with reply := some (s.stepping, reportOf d s.cpu) }
    else none
  | .readStatus =>
    match s.reply with
    | some (stepping, report) => some (readStatus d observed s stepping report)
    | none => none
  | .pauseProbeFails => if s.phase = .pauseProbing then some (sendPause s) else none
  | .takeBroadcast =>
    match s.phase with
    | .confirming noAdvance _ =>
      if s.queue = [] then none else some (takeBroadcast observed s noAdvance)
    | _ => none
  | .confirmTimeout =>
    match s.phase with
    | .confirming _ sawBroadcast => some (confirmTimeout observed s sawBroadcast)
    | _ => none
  | .callRaises => if s.phase = .idle then none else some (raiseCall observed s)
  | .consume i =>
    match s.inbox[i]? with
    | some (command, call) =>
      some (consume d { s with inbox := s.inbox.eraseIdx i } command call)
    | none => none
  | .runs cpu => if s.stepping then none else some { s with cpu := cpu }
  | .halts => if s.stepping then none else some (emit d { s with stepping := true })
  | .resumes =>
    if s.stepping ∧ s.phase = .idle then some { s with stepping := false } else none
  | .deliver i =>
    match s.wire[i]? with
    | some msg =>
      some { s with
        wire := s.wire.eraseIdx i
        queue := pushDropOldest (queueMax observed) s.queue msg }
    | none => none
  | .lose i =>
    if i < s.wire.length then some { s with wire := s.wire.eraseIdx i } else none

/-- One client, one emulator and the channel between them. -/
def machine : Machine (State σ τ) (Event σ) where
  step := step d observed

/-- What a step can do. -/
inductive State.Takes (s : State σ τ) : Event σ → State σ τ → Prop
  | callStart {kind : CallKind} (hphase : s.phase = .idle) :
      s.Takes (.callStart kind)
        { s with phase := .probing, reply := none, call := s.call + 1, kind := kind }
  | answerStatus (hphase : s.phase.awaitsStatus = true) :
      s.Takes .answerStatus { s with reply := some (s.stepping, reportOf d s.cpu) }
  | readStatus {stepping : Bool} {report : Report τ} (hreply : s.reply = some (stepping, report)) :
      s.Takes .readStatus (readStatus d observed s stepping report)
  | pauseProbeFails (hphase : s.phase = .pauseProbing) : s.Takes .pauseProbeFails (sendPause s)
  | takeBroadcast {noAdvance : ℕ} {saw : Bool} (hphase : s.phase = .confirming noAdvance saw) :
      s.Takes .takeBroadcast (takeBroadcast observed s noAdvance)
  | confirmTimeout {noAdvance : ℕ} {saw : Bool} (hphase : s.phase = .confirming noAdvance saw) :
      s.Takes .confirmTimeout (confirmTimeout observed s saw)
  | callRaises (hphase : s.phase ≠ .idle) : s.Takes .callRaises (raiseCall observed s)
  | consume {i : ℕ} {command : Command} {call : ℕ} (hmem : s.inbox[i]? = some (command, call)) :
      s.Takes (.consume i) (consume d { s with inbox := s.inbox.eraseIdx i } command call)
  | runs {cpu : σ} (hrunning : s.stepping = false) : s.Takes (.runs cpu) { s with cpu := cpu }
  | halts (hrunning : s.stepping = false) : s.Takes .halts (emit d { s with stepping := true })
  | resumes (hphase : s.phase = .idle) : s.Takes .resumes { s with stepping := false }
  | deliver {i : ℕ} {msg : Broadcast τ} (hmsg : s.wire[i]? = some msg) :
      s.Takes (.deliver i)
        { s with
          wire := s.wire.eraseIdx i
          queue := pushDropOldest (queueMax observed) s.queue msg }
  | lose (i : ℕ) : s.Takes (.lose i) { s with wire := s.wire.eraseIdx i }

variable {d observed}

theorem takes_of_step {s t : State σ τ} {e : Event σ}
    (hstep : (machine d observed).step s e = some t) : State.Takes d observed s e t := by
  replace hstep : step d observed s e = some t := hstep
  cases e with
  | callStart kind =>
    simp only [step] at hstep
    split at hstep
    next hphase =>
      obtain rfl := Option.some.inj hstep
      exact .callStart hphase
    · cases hstep
  | answerStatus =>
    simp only [step] at hstep
    split at hstep
    next hready =>
      obtain rfl := Option.some.inj hstep
      exact .answerStatus hready.1
    · cases hstep
  | readStatus =>
    simp only [step] at hstep
    split at hstep
    next stepping report hreply =>
      obtain rfl := Option.some.inj hstep
      exact .readStatus hreply
    · cases hstep
  | pauseProbeFails =>
    simp only [step] at hstep
    split at hstep
    next hphase =>
      obtain rfl := Option.some.inj hstep
      exact .pauseProbeFails hphase
    · cases hstep
  | takeBroadcast =>
    simp only [step] at hstep
    split at hstep
    next noAdvance saw hphase =>
      split at hstep
      · cases hstep
      · obtain rfl := Option.some.inj hstep
        exact .takeBroadcast hphase
    · cases hstep
  | confirmTimeout =>
    simp only [step] at hstep
    split at hstep
    next noAdvance saw hphase =>
      obtain rfl := Option.some.inj hstep
      exact .confirmTimeout hphase
    · cases hstep
  | callRaises =>
    simp only [step] at hstep
    split at hstep
    · cases hstep
    next hphase =>
      obtain rfl := Option.some.inj hstep
      exact .callRaises hphase
  | consume i =>
    simp only [step] at hstep
    split at hstep
    next command call hmem =>
      obtain rfl := Option.some.inj hstep
      exact .consume hmem
    · cases hstep
  | runs cpu =>
    simp only [step] at hstep
    split at hstep
    · cases hstep
    next hrunning =>
      obtain rfl := Option.some.inj hstep
      exact .runs (Bool.not_eq_true _ ▸ hrunning)
  | halts =>
    simp only [step] at hstep
    split at hstep
    · cases hstep
    next hrunning =>
      obtain rfl := Option.some.inj hstep
      exact .halts (Bool.not_eq_true _ ▸ hrunning)
  | resumes =>
    simp only [step] at hstep
    split at hstep
    next hidle =>
      obtain rfl := Option.some.inj hstep
      exact .resumes hidle.2
    · cases hstep
  | deliver i =>
    simp only [step] at hstep
    split at hstep
    next msg hmsg =>
      obtain rfl := Option.some.inj hstep
      exact .deliver hmsg
    · cases hstep
  | lose i =>
    simp only [step] at hstep
    split at hstep
    · obtain rfl := Option.some.inj hstep
      exact .lose i
    · cases hstep

end Machine

/-- A CPU that counts its steps: the state is the number of instructions executed. -/
def countingCpu : Debuggee ℕ ℕ where
  advance := fun _ cpu => cpu + 1
  pc := fun cpu => some (0x08804000 + 4 * (cpu : ℤ))
  ticks := fun cpu => some cpu
  toFloat := id

end Stepping
