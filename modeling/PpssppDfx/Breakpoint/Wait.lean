import PpssppDfx.Breakpoint.CondFilter
import PpssppDfx.Semantics.DropOldest
import PpssppDfx.Semantics.Machine

/-!
# Waiting for a breakpoint

`wait_breakpoint` subscribes to the stops of the CPU and takes them one by one. A stop at an
address with a condition is evaluated: if the condition does not hold, the CPU is resumed
and the wait goes on, within its budget. An address that stops the CPU ten times with less
than a second between the stops is disarmed.

A stop carries what an expression evaluates to while the CPU stands there. Other calls may
arm and disarm addresses at any time. Times are nanoseconds of the monotonic clock.

## Main definitions

* `Breakpoint.Stop` — a `cpu.stepping` broadcast
* `Breakpoint.Wait` — the state of a call
* `Breakpoint.waiting` — the machine
-/

set_option autoImplicit false

namespace Breakpoint

open Semantics Function Python

/-! ## Stops -/

/-- A `cpu.stepping` broadcast. -/
structure Stop where
  pc : Option ℤ
  relatedAddress : Option ℤ
  reason : Option String
  ticks : Option ℕ
  /-- The truth of an expression at this stop: `none` if it cannot be evaluated. -/
  evaluates : String → Option Bool

/-- The entry of an address that a broadcast names. -/
def Filters.entryAt (f : Filters) (sessionId : String) : Option ℤ → Option (ℤ × Filter)
  | none => none
  | some address => (f.get sessionId address).map fun entry => (address, entry)

/-- `_filter_address_for`, with the entry. -/
def filterFor (f : Filters) (sessionId : String) (m : Stop) : Option (ℤ × Filter) :=
  -- at a watchpoint the related address is the one that was accessed, and `pc` is the instruction
  (f.entryAt sessionId m.relatedAddress).orElse fun _ => f.entryAt sessionId m.pc

/-- A stop that the call met, with the condition it had to meet, if any. -/
structure Met where
  stop : Stop
  condition : Option String

/-- A stop as the registry attributes it. -/
def meet (f : Filters) (sessionId : String) (m : Stop) : Met :=
  ⟨m, (filterFor f sessionId m).map fun found => found.2.condition⟩

/-- The condition holds or cannot be evaluated, or there is none. -/
def Met.Real (x : Met) : Prop := ∀ c ∈ x.condition, x.stop.evaluates c ≠ some false

instance : DecidablePred Met.Real :=
  fun x => inferInstanceAs (Decidable (∀ c ∈ x.condition, _))

/-! ## The call -/

/-- `WaitBreakpointResult`, with the note of the response. -/
structure WaitResult where
  hit : Bool
  alreadyPaused : Bool
  pc : Option ℤ
  reason : Option String
  relatedAddress : Option ℤ
  ticks : Option ℕ
  condition : Option String
  conditionFiltered : ℕ
  filteredHits : ℕ
  stormBreak : Bool
  note : Option String

/-- The defaults of `WaitBreakpointResult`. -/
def WaitResult.blank : WaitResult :=
  ⟨false, false, none, none, none, none, none, 0, 0, false, none⟩

/-- A result with what the broadcast says. -/
def WaitResult.at (m : Stop) : WaitResult :=
  { WaitResult.blank with
    pc := m.pc, reason := m.reason, relatedAddress := m.relatedAddress, ticks := m.ticks }

/-- One second. -/
def oneSecond : ℕ := 1000000000

/-- `_clamp_timeout`. -/
def clampTimeout (timeout : ℤ) : ℕ := (min (max timeout 500000000) 300000000000).toNat

def stormHits : ℕ := 10

/-- The most broadcasts that a subscription keeps. -/
def subscriptionMax : ℕ := 32

/-- A hit that was counted for its address. -/
structure Counted where
  time : ℕ
  met : Met

/-- Ten hits with less than a second from each to the next. -/
def isStorm (stamps : List Counted) : Bool :=
  let recent := stamps.drop (stamps.length - stormHits)
  recent.length = stormHits &&
    (recent.zip recent.tail).all fun pair => decide (pair.2.time - pair.1.time < oneSecond)

/-- Where the call awaits. -/
inductive WaitPhase where
  /-- The probe of the CPU state, after the subscription. -/
  | probing
  /-- The head of the loop. -/
  | looping
  /-- The next broadcast. -/
  | taking
  /-- The value of the condition of the stop that was taken. -/
  | evaluating (m : Stop) (address : ℤ) (entry : Filter)
  /-- The CPU, to run on. -/
  | resuming
  /-- The disarming of the address. -/
  | breaking (m : Stop) (address : ℤ) (entry : Filter)
  | returned (result : WaitResult)

structure Wait where
  now : ℕ
  deadline : ℕ
  queue : List Stop
  filters : Filters
  filteredTotal : ℕ
  stamps : ℤ → List Counted
  phase : WaitPhase
  /-- Every broadcast that reached the subscription. -/
  delivered : List Stop
  /-- The broadcasts before the current one: the call went on after them, or the
  subscription lost them. -/
  passed : List Met
  /-- The broadcasts that the subscription lost after the current one was taken. -/
  lost : List Met

namespace Wait

variable (sessionId : String) (s : Wait)

/-- The stop that the call has taken and not yet decided on. -/
def current : List Met :=
  match s.phase with
  | .evaluating m _ entry => [⟨m, some entry.condition⟩]
  | .breaking m _ entry => [⟨m, some entry.condition⟩]
  | _ => []

/-- The call goes on after the current stop. -/
def passOver : Wait :=
  { s with passed := s.passed ++ s.current ++ s.lost, lost := [] }

/-- The subscription is closed: what it still holds is passed over too. -/
def close (result : WaitResult) : Wait :=
  { s with
    passed := s.passed ++ s.current ++ s.lost ++ s.queue.map (meet s.filters sessionId)
    lost := []
    queue := []
    phase := .returned result }

/-- A broadcast reaches the subscription, which loses its oldest one when it is full. -/
def offer (m : Stop) : Wait :=
  { s with
    queue := pushDropOldest subscriptionMax s.queue m
    delivered := s.delivered ++ [m]
    lost :=
      if s.queue.length < subscriptionMax then s.lost
      else s.lost ++ (s.queue.take 1).map (meet s.filters sessionId) }

/-- The CPU was paused before the call. -/
def pausedResult (pc : Option ℤ) : WaitResult :=
  { WaitResult.blank with
    hit := true
    alreadyPaused := true
    pc := pc
    note :=
      match pc with
      | none => none
      | some pc =>
        (s.filters.get sessionId pc).map fun armed =>
          "CPU was already paused at arm time; the condition " ++ strRepr armed.condition ++
            " registered for " ++ formatAddress pc ++ " was NOT evaluated (a manual pause is " ++
            "indistinguishable from a hit). Resume the CPU to let the MCP-side evaluator " ++
            "take over." }

/-- The result of a stop whose condition held or could not be evaluated. -/
def hitResult (m : Stop) (address : ℤ) (entry : Filter) (verdict : Option Bool) : WaitResult :=
  -- the condition may have been dropped, or replaced, while it was evaluated
  let current := (s.filters.bumpHit sessionId address).get sessionId address |>.getD entry
  { WaitResult.at m with
    hit := true
    condition := some current.condition
    conditionFiltered := current.filtered
    note :=
      if verdict = none then
        some ("condition could not be evaluated (WS error or unparseable result) — treated as " ++
          "a hit so a real breakpoint is never dropped; verify the expression manually with " ++
          "ppsspp_evaluate")
      else none }

def stormResult (m : Stop) (address : ℤ) (entry : Filter) : WaitResult :=
  { WaitResult.at m with
    condition := some entry.condition
    conditionFiltered := entry.filtered
    filteredHits := s.filteredTotal
    stormBreak := true
    note := some ("hit storm at " ++ formatAddress address ++ ": 10+ hits with <1s gaps — " ++
      "breakpoint removed and filter dropped (condition=" ++ strRepr entry.condition ++ ")") }

/-- The address is disarmed, or the condition of the stop is evaluated. -/
def afterStamp (stamps : List Counted) (m : Stop) (address : ℤ) (entry : Filter) : WaitPhase :=
  if isStorm stamps then .breaking m address entry else .evaluating m address entry

/-- The next broadcast is taken. -/
def take (m : Stop) (queue : List Stop) : Wait :=
  let s := { s with queue := queue }
  match filterFor s.filters sessionId m with
  -- no condition is registered for the address: every stop is a hit
  | none => { s with phase := .returned { WaitResult.at m with hit := true } }
  | some (address, entry) =>
    let stamps := s.stamps address ++ [⟨s.now, m, some entry.condition⟩]
    { s with
      stamps := update s.stamps address stamps
      phase := afterStamp stamps m address entry }

/-- The condition of the stop has been evaluated. -/
def judge (m : Stop) (address : ℤ) (entry : Filter) : Wait :=
  -- only a condition that is known to be false sends the CPU on
  if m.evaluates entry.condition = some false then
    { s.passOver with
      filters := s.filters.bumpFiltered sessionId address
      filteredTotal := s.filteredTotal + 1
      phase := .resuming }
  else
    { s with
      filters := s.filters.bumpHit sessionId address
      phase := .returned (s.hitResult sessionId m address entry (m.evaluates entry.condition)) }

end Wait

/-! ## The machine -/

inductive WaitLabel where
  /-- Time passes. -/
  | tick (elapsed : ℕ)
  /-- The dispatcher feeds the subscription. -/
  | offer (m : Stop)
  /-- Another call arms or disarms an address. -/
  | rearm (key : String × ℤ) (entry : Option Filter)
  /-- The CPU state at arm time; a paused one with its `pc`, if that can be trusted. -/
  | probe (stepping : Bool) (pc : Option ℤ)
  /-- The head of the loop checks the budget. -/
  | check
  /-- The next broadcast is there, or does not come in time. -/
  | take
  | takeTimesOut
  /-- The condition has been evaluated, or could not be. -/
  | judge
  /-- The CPU has been told to run on, or could not be. -/
  | resumed
  /-- The address has been disarmed, as far as that was possible. -/
  | disarm

/-- A step of the call with this budget. -/
def waitStep (sessionId : String) (budget : ℕ) (s : Wait) : WaitLabel → Option Wait
  | .tick elapsed => some { s with now := s.now + elapsed }
  | .offer m =>
    match s.phase with
    | .returned _ => none
    | _ => some (s.offer sessionId m)
  | .rearm key entry => some { s with filters := update s.filters key entry }
  | .probe stepping pc =>
    match s.phase with
    | .probing =>
      if stepping then some { s with phase := .returned (s.pausedResult sessionId pc) }
      else some { s with deadline := s.now + budget, phase := .looping }
    | _ => none
  | .check =>
    match s.phase with
    | .looping =>
      -- the budget ends the call between two stops only
      if s.deadline ≤ s.now then
        some (s.close sessionId { WaitResult.blank with filteredHits := s.filteredTotal })
      else some { s with phase := .taking }
    | _ => none
  | .take =>
    match s.phase, s.queue with
    | .taking, m :: queue => some (s.passOver.take sessionId m queue)
    | _, _ => none
  | .takeTimesOut =>
    match s.phase, s.queue with
    | .taking, [] => if s.deadline ≤ s.now then some { s with phase := .looping } else none
    | _, _ => none
  | .judge =>
    match s.phase with
    | .evaluating m address entry => some (s.judge sessionId m address entry)
    | _ => none
  | .resumed =>
    match s.phase with
    | .resuming => some { s with phase := .looping }
    | _ => none
  | .disarm =>
    match s.phase with
    | .breaking m address entry =>
      some { s.close sessionId (s.stormResult m address entry) with
        filters := s.filters.drop sessionId address }
    | _ => none

/-- A call of `wait_breakpoint` with a timeout in nanoseconds. -/
def waiting (sessionId : String) (timeout : ℤ) : Machine Wait WaitLabel :=
  ⟨waitStep sessionId (clampTimeout timeout)⟩

/-- The call right after it has subscribed. -/
def Wait.begin (now : ℕ) (filters : Filters) : Wait where
  now := now
  deadline := 0
  queue := []
  filters := filters
  filteredTotal := 0
  stamps := fun _ => []
  phase := .probing
  delivered := []
  passed := []
  lost := []

end Breakpoint
