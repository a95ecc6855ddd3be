import PpssppDfx.Breakpoint.MemCheck
import PpssppDfx.Breakpoint.Wait

/-!
# Tracing the accesses to an address

`trace_memory_access` sets a watchpoint, waits for the CPU to stop, removes the watchpoint
and lets the CPU run on. A step of the machine is one await of the call: it succeeds, raises,
or is cancelled, and a command that raises or is cancelled may still have reached the emulator.

The removal at the end is shielded: a cancelled call returns at once, and the removal goes on
in the background.

## Main definitions

* `TraceRequest.watch` — the watchpoint that the call sets
* `QuietPhase` — `_remove_mem_bp_quietly`
* `tracing` — the machine of one call
-/

set_option autoImplicit false

namespace Breakpoint

open Semantics Python

/-! ## Request and result -/

inductive Access where
  | read
  | write
  | readWrite
  deriving DecidableEq

/-- The arguments of a call: the address as text and as `parse_address` reads it. -/
structure TraceRequest where
  text : String
  address : ℤ
  access : Access
  size : ℤ

namespace TraceRequest

variable (q : TraceRequest)

/-- The checks of the arguments, with the message of the first that fails. -/
def refusal : Option String :=
  if q.address = 0 then some ("address must be a valid hex address, got " ++ strRepr q.text)
  else if q.size ∈ [1, 2, 4] then none
  else some ("size must be 1, 2, or 4 bytes, got " ++ toString q.size)

/-- The watchpoint that the call sets. -/
def watch : MemCheck where
  address := q.address
  size := q.size
  read := q.access = .read ∨ q.access = .readWrite
  write := q.access = .write ∨ q.access = .readWrite
  change := false
  enabled := true
  log := false
  condition := none
  logFormat := none

@[simp] theorem watch_address : q.watch.address = q.address := rfl

@[simp] theorem watch_size : q.watch.size = q.size := rfl

end TraceRequest

/-- `TraceAccessResult`. -/
structure TraceResult where
  hit : Bool
  alreadyPaused : Bool
  hits : List Stop
  bpRemoved : Bool
  resumed : Bool
  note : Option String

namespace TraceResult

/-- The CPU was paused before the call. -/
def paused : TraceResult :=
  ⟨false, true, [], false, false,
    some "CPU already paused at arm time — resume it first, then trace"⟩

/-- No stop came in time. -/
def timeout (removed : Bool) : TraceResult :=
  ⟨false, false, [], removed, false,
    if removed then none
    else some ("breakpoint removal failed on the timeout path — check " ++
      "ppsspp_breakpoint(action='mem_list')")⟩

/-- A stop was captured. -/
def captured (m : Stop) (removed : Bool) : TraceResult :=
  ⟨true, false, [m], removed, true,
    if removed then none
    else some ("hit captured but breakpoint removal could not be verified — " ++
      "check ppsspp_breakpoint(action='mem_list')")⟩

end TraceResult

/-! ## Awaits -/

/-- How an await ends: a call that raises or is cancelled may have been applied. -/
inductive Await where
  | ok
  | raises (applied : Bool)
  | cancelled (applied : Bool)

/-- Where `_remove_mem_bp_quietly` awaits. -/
inductive QuietPhase where
  | entering
  | listing
  | removing (size : ℤ)
  | verifying

namespace QuietPhase

variable (address : ℤ) (t : MemTable)

/-- The table after the awaited call has been applied. -/
def applied : QuietPhase → MemTable
  | .removing size => t.remove address size
  | _ => t

/-- The await has succeeded: the next one, or the value that the call returns. -/
def next : QuietPhase → QuietPhase ⊕ Bool
  | .entering => .inl .listing
  | .listing =>
    match t.findAt address with
    -- another call was faster: there is nothing to remove
    | none => .inr true
    | some existing => .inl (.removing existing.size)
  -- the list is asked for again, to see that the entry is gone
  | .removing _ => .inl .verifying
  | .verifying => .inr (t.findAt address).isNone

end QuietPhase

/-! ## The call -/

inductive TraceEnding where
  /-- An argument is refused before anything is sent. -/
  | argsInvalid (message : String)
  | returned (result : TraceResult)
  | raised
  | cancelled

/-- Where the call awaits. -/
inductive TracePhase where
  | entering
  | probing
  /-- The CPU was paused: the session is released. -/
  | leavingPaused
  | arming
  | leaving
  | waiting
  | timedOut (p : QuietPhase)
  | enteringHit (m : Stop)
  /-- The registers and the backtrace, where they are wanted. -/
  | capturing (m : Stop)
  | listing (m : Stop)
  | removing (m : Stop) (size : ℤ)
  | verifying (m : Stop)
  | resuming (m : Stop) (removed : Bool)
  | leavingHit (m : Stop) (removed : Bool)
  /-- The handler of an error resumes the CPU. -/
  | recovering
  /-- The shielded removal. -/
  | cleaning (p : QuietPhase) (ending : TraceEnding)
  | exited (ending : TraceEnding)

structure Trace where
  /-- The watchpoints of the emulator. -/
  table : MemTable
  /-- The CPU runs. -/
  running : Bool
  /-- The broadcasts in the subscription. -/
  unread : List Stop
  phase : TracePhase
  /-- `bp_armed`. -/
  armed : Bool
  /-- `needs_resume`. -/
  needsResume : Bool
  /-- A removal that goes on after the call has been cancelled. -/
  background : Option QuietPhase

namespace Trace

variable (q : TraceRequest) (s : Trace)

/-- The emulator has applied the awaited call. -/
def effect : Trace :=
  match s.phase with
  | .arming => { s with table := s.table.add q.watch }
  | .timedOut p | .cleaning p _ => { s with table := p.applied q.address s.table }
  | .removing _ size => { s with table := s.table.remove q.address size }
  | .resuming _ _ | .recovering => { s with running := true }
  | _ => s

/-- The awaited call has been applied, or not. -/
def suffer (applied : Bool) : Trace := if applied then s.effect q else s

section Effect

variable {q s} {applied : Bool}

@[simp] theorem effect_phase : (s.effect q).phase = s.phase := by
  unfold effect
  split <;> rfl

@[simp] theorem effect_armed : (s.effect q).armed = s.armed := by
  unfold effect
  split <;> rfl

@[simp] theorem effect_needsResume : (s.effect q).needsResume = s.needsResume := by
  unfold effect
  split <;> rfl

@[simp] theorem effect_background : (s.effect q).background = s.background := by
  unfold effect
  split <;> rfl

@[simp] theorem suffer_phase : (s.suffer q applied).phase = s.phase := by
  cases applied with
  | false => rfl
  | true => exact effect_phase

@[simp] theorem suffer_armed : (s.suffer q applied).armed = s.armed := by
  cases applied with
  | false => rfl
  | true => exact effect_armed

@[simp] theorem suffer_needsResume : (s.suffer q applied).needsResume = s.needsResume := by
  cases applied with
  | false => rfl
  | true => exact effect_needsResume

@[simp] theorem suffer_background : (s.suffer q applied).background = s.background := by
  cases applied with
  | false => rfl
  | true => exact effect_background

/-- Only a resume sets the CPU going. -/
theorem suffer_running (hresuming : ∀ m removed, s.phase ≠ .resuming m removed)
    (hrecovering : s.phase ≠ .recovering) : (s.suffer q applied).running = s.running := by
  cases applied with
  | false => rfl
  | true =>
    rw [suffer, if_pos rfl, effect]
    split
    case h_5 hphase => exact absurd hphase (hresuming _ _)
    case h_6 hphase => exact absurd hphase hrecovering
    all_goals rfl

end Effect

/-- The `finally` clause: what is still armed is removed. -/
def finish (ending : TraceEnding) : Trace :=
  if s.armed then { s with phase := .cleaning .entering ending }
  else { s with phase := .exited ending }

/-- The await has succeeded. -/
def proceed : Option Trace :=
  match s.phase with
  | .entering => some { s with phase := .probing }
  -- a CPU that is paused can hit nothing
  | .probing => some { s with phase := if s.running then .arming else .leavingPaused }
  | .leavingPaused => some (s.finish (.returned .paused))
  -- only a call that has come back counts: one that raised may have set the watchpoint too
  | .arming => some { s with phase := .leaving, armed := true }
  | .leaving => some { s with phase := .waiting }
  | .waiting => none
  | .timedOut p =>
    match p.next q.address s.table with
    | .inl p => some { s with phase := .timedOut p }
    | .inr removed =>
      some (({ s with armed := s.armed && !removed } : Trace).finish
        (.returned (.timeout removed)))
  | .enteringHit m => some { s with phase := .capturing m }
  | .capturing m => some { s with phase := .listing m }
  | .listing m =>
    match s.table.findAt q.address with
    | none => some { s with phase := .verifying m }
    | some existing => some { s with phase := .removing m existing.size }
  | .removing m _ => some { s with phase := .verifying m }
  | .verifying m =>
    let removed := (s.table.findAt q.address).isNone
    some { s with phase := .resuming m removed, armed := s.armed && !removed }
  | .resuming m removed => some { s with phase := .leavingHit m removed, needsResume := false }
  | .leavingHit m removed => some (s.finish (.returned (.captured m removed)))
  | .recovering => some (s.finish .raised)
  | .cleaning p ending =>
    match p.next q.address s.table with
    | .inl p => some { s with phase := .cleaning p ending }
    | .inr _ => some { s with phase := .exited ending }
  | .exited _ => none

/-- The await has raised. -/
def fail : Option Trace :=
  match s.phase with
  | .exited _ => none
  -- `_remove_mem_bp_quietly` raises nothing, and answers that the removal failed
  | .timedOut _ => some (s.finish (.returned (.timeout false)))
  | .recovering => some (s.finish .raised)
  | .cleaning _ ending => some { s with phase := .exited ending }
  | _ =>
    -- after a stop the CPU is resumed before the error goes on
    if s.needsResume then some { s with phase := .recovering } else some (s.finish .raised)

/-- The call has been cancelled at an await: no handler resumes the CPU. -/
def cancel (applied : Bool) : Option Trace :=
  match s.phase with
  | .exited _ => none
  -- the removal is shielded: the call leaves it behind
  | .cleaning p ending => some { s with phase := .exited ending, background := some p }
  | _ => some ((s.suffer q applied).finish .cancelled)

section Background

variable {q s} {t : Trace}

@[simp] theorem finish_background {ending : TraceEnding} :
    (s.finish ending).background = s.background := by
  unfold finish
  split <;> rfl

theorem proceed_background (h : s.proceed q = some t) : t.background = s.background := by
  unfold proceed at h
  split at h
  all_goals try split at h
  all_goals cases h <;> simp

theorem fail_background (h : s.fail = some t) : t.background = s.background := by
  unfold fail at h
  split at h
  all_goals try split at h
  all_goals cases h <;> simp

theorem cancel_background {applied : Bool} (h : s.cancel q applied = some t) :
    t.background = s.background ∨ t.table = s.table ∧ ∃ p ending, s.phase = .cleaning p ending := by
  unfold cancel at h
  split at h
  · exact nomatch h
  · rename_i p ending hphase
    obtain rfl := Option.some.inj h
    exact Or.inr ⟨rfl, p, ending, hphase⟩
  · obtain rfl := Option.some.inj h
    exact Or.inl (by simp)

end Background

/-- The await of the removal in the background has ended. -/
def progress (p : QuietPhase) : Await → Option Trace
  | .ok =>
    let table := p.applied q.address s.table
    match p.next q.address table with
    | .inl p => some { s with table := table, background := some p }
    | .inr _ => some { s with table := table, background := none }
  | .raises applied =>
    some { s with
      table := if applied then p.applied q.address s.table else s.table
      background := none }
  | .cancelled _ => none

end Trace

/-! ## The machine -/

inductive TraceLabel where
  /-- The CPU stops, and the stop is broadcast. -/
  | stop (m : Stop)
  /-- The await ends. -/
  | await (o : Await)
  /-- The next broadcast is there, or does not come in time. -/
  | take
  | timesOut
  /-- The await of the removal in the background ends. -/
  | background (o : Await)

/-- A step of a call. -/
def traceStep (q : TraceRequest) (s : Trace) : TraceLabel → Option Trace
  | .stop m =>
    if s.running then some { s with running := false, unread := s.unread ++ [m] } else none
  | .await .ok => (s.effect q).proceed q
  | .await (.raises applied) => (s.suffer q applied).fail
  | .await (.cancelled applied) => s.cancel q applied
  | .take =>
    match s.phase, s.unread with
    | .waiting, m :: unread =>
      some { s with unread := unread, phase := .enteringHit m, needsResume := true }
    | _, _ => none
  | .timesOut =>
    match s.phase with
    | .waiting => some { s with phase := .timedOut .entering }
    | _ => none
  | .background o =>
    match s.background with
    | some p => s.progress q p o
    | none => none

def tracing (q : TraceRequest) : Machine Trace TraceLabel := ⟨traceStep q⟩

/-- What a step can do. -/
inductive Trace.Takes (q : TraceRequest) (s : Trace) : TraceLabel → Trace → Prop
  | stop {m : Stop} (hrunning : s.running = true) :
      s.Takes q (.stop m) { s with running := false, unread := s.unread ++ [m] }
  | succeeds {t : Trace} (hnext : (s.effect q).proceed q = some t) : s.Takes q (.await .ok) t
  | fails {t : Trace} {applied : Bool} (hnext : (s.suffer q applied).fail = some t) :
      s.Takes q (.await (.raises applied)) t
  | isCancelled {t : Trace} {applied : Bool} (hnext : s.cancel q applied = some t) :
      s.Takes q (.await (.cancelled applied)) t
  | take {m : Stop} {unread : List Stop} (hphase : s.phase = .waiting)
      (hunread : s.unread = m :: unread) :
      s.Takes q .take { s with unread := unread, phase := .enteringHit m, needsResume := true }
  | timesOut (hphase : s.phase = .waiting) :
      s.Takes q .timesOut { s with phase := .timedOut .entering }
  | background {t : Trace} {o : Await} {p : QuietPhase} (hbackground : s.background = some p)
      (hnext : s.progress q p o = some t) : s.Takes q (.background o) t

theorem Trace.takes_of_step {q : TraceRequest} {s t : Trace} {e : TraceLabel}
    (hstep : (tracing q).step s e = some t) : s.Takes q e t := by
  cases e with
  | stop m =>
    simp only [tracing, traceStep] at hstep
    split at hstep
    next hrunning =>
      obtain rfl := Option.some.inj hstep
      exact .stop hrunning
    · cases hstep
  | await o =>
    cases o with
    | ok => exact .succeeds hstep
    | raises applied => exact .fails hstep
    | cancelled applied => exact .isCancelled hstep
  | take =>
    simp only [tracing, traceStep] at hstep
    split at hstep
    next m unread hphase hunread =>
      obtain rfl := Option.some.inj hstep
      exact .take hphase hunread
    · cases hstep
  | timesOut =>
    simp only [tracing, traceStep] at hstep
    split at hstep
    next hphase =>
      obtain rfl := Option.some.inj hstep
      exact .timesOut hphase
    · cases hstep
  | background o =>
    simp only [tracing, traceStep] at hstep
    split at hstep
    next p hbackground => exact .background hbackground hstep
    · cases hstep

/-- A call right after it has subscribed, or has refused its arguments. -/
def Trace.begin (q : TraceRequest) (table : MemTable) (running : Bool) : Trace where
  table := table
  running := running
  unread := []
  phase :=
    match q.refusal with
    | some message => .exited (.argsInvalid message)
    | none => .entering
  armed := false
  needsResume := false
  background := none

end Breakpoint
