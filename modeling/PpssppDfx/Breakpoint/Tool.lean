import PpssppDfx.Breakpoint.CondFilter
import PpssppDfx.Semantics.Machine

/-!
# Managing breakpoints

The actions of the breakpoint tool that arm and disarm CPU breakpoints and memory
watchpoints. Each of them sends one command to the emulator, between listings, and keeps the
condition of the address in the registry of condition filters.

One call of the tool holds the lock of its session from its first command to its last, so
it is one step. What the emulator answers to it comes with the label.

## Main definitions

* `Breakpoint.breakpoint` — a call of the tool
* `Breakpoint.Target` — what a command arms or disarms
* `Breakpoint.managing` — the calls of one session, one after the other
-/

set_option autoImplicit false

namespace Breakpoint

open Semantics Function Python

/-! ## Calls -/

inductive Action where
  | set | remove | list | update | memSet | memRemove | memList | memUpdate
  deriving DecidableEq

namespace Action

def name : Action → String
  | set => "set"
  | remove => "remove"
  | list => "list"
  | update => "update"
  | memSet => "mem_set"
  | memRemove => "mem_remove"
  | memList => "mem_list"
  | memUpdate => "mem_update"

/-- `_BP_ACTIONS_REQUIRING_ADDRESS`. -/
def requiresAddress : Action → Bool
  | list | memList => false
  | _ => true

/-- The actions on watchpoints, for which the size counts. -/
def requiresSize : Action → Bool
  | memSet | memRemove | memUpdate => true
  | _ => false

end Action

structure Call where
  action : Action
  /-- What `parse_address` makes of the argument. -/
  address : ℤ
  size : ℤ
  enabled : Option Bool
  read : Option Bool
  write : Option Bool
  log : Option Bool
  condition : Option String
  logFormat : Option String

/-- A breakpoint in a listing. -/
structure Listed where
  address : ℤ
  size : Option ℤ
  enabled : Option Bool
  read : Option Bool
  write : Option Bool
  change : Option Bool

/-- `find_mem_bp` without a size: the first watchpoint at the address. -/
def findMemBp (listing : List Listed) (address : ℤ) : Option Listed :=
  listing.find? fun bp => bp.address = address

/-- What the emulator answers to a call: the listing before the command, whether the command
succeeds, and the listing after it. -/
structure Answers where
  before : Option (List Listed)
  succeeds : Bool
  after : Option (List Listed)

/-- The command that changes a breakpoint. -/
inductive Command where
  | cpuAdd (address : ℤ) (enabled : Bool)
  | cpuRemove (address : ℤ)
  | cpuUpdate (address : ℤ) (enabled log : Option Bool) (logFormat : Option String)
  | memAdd (address size : ℤ) (read write enabled log : Bool) (logFormat : Option String)
  | memRemove (address size : ℤ)
  | memUpdate (address size : ℤ) (enabled log : Option Bool) (logFormat : Option String)
      (read write change : Bool)

structure BreakpointResult where
  action : String
  address : ℤ
  enabled : Option Bool
  breakpoints : List Listed

inductive Reply where
  | result (r : BreakpointResult)
  | argsInvalid (message : String)
  | breakpointError (message : String)
  /-- The emulator's answer, or its absence, raised. -/
  | raised

structure Outcome where
  filters : Filters
  /-- The command that was sent, and whether it succeeded. -/
  command : Option (Command × Bool)
  reply : Reply

/-! ## Conditions -/

/-- A condition that is not empty. -/
def truthy : Option String → Option String
  | some c => if c = "" then none else some c
  | none => none

namespace Filters

variable (f : Filters) (sessionId : String) (address : ℤ)

/-- A breakpoint is set: its condition is registered, or an old one dropped. -/
def set (condition : Option String) : Filters :=
  match truthy condition with
  | some c => f.register sessionId address c
  | none => f.drop sessionId address

/-- A breakpoint is updated: without a condition nothing changes. -/
def revise (condition : Option String) : Filters :=
  match condition with
  | none => f
  -- the counters of the old condition start again
  | some _ => (f.drop sessionId address).set sessionId address condition

end Filters

/-! ## The tool -/

namespace Call

variable (sessionId : String) (f : Filters) (q : Call) (a : Answers)

/-- Whether the breakpoint is listed as enabled. -/
def enabledIn (bps : List Listed) : Option Bool :=
  match bps.find? fun bp => bp.address = q.address with
  | some bp => bp.enabled
  -- not listed: the reply repeats what was asked for
  | none => some (q.enabled.getD true)

/-- The command has been sent. If it succeeds, the registry changes, and the listing that
follows is the reply. -/
def send (command : Command) (filters : Filters) (enabled : List Listed → Option Bool) : Outcome :=
  if a.succeeds then
    ⟨filters, some (command, true),
      match a.after with
      | none => .raised
      | some bps => .result ⟨q.action.name, q.address, enabled bps, bps⟩⟩
  -- a command that raises leaves the registry alone
  else ⟨f, some (command, false), .raised⟩

/-- A listing is all there is to do. -/
def listing : Outcome :=
  ⟨f, none,
    match a.after with
    | none => .raised
    | some bps => .result ⟨q.action.name, 0, some true, bps⟩⟩

/-- The watchpoint at the address, to remove or update. -/
def withMemBp (next : Listed → Outcome) : Outcome :=
  match a.before with
  | none => ⟨f, none, .raised⟩
  | some bps =>
    match findMemBp bps q.address with
    | none =>
      ⟨f, none, .breakpointError ("no memory breakpoint at " ++ formatAddress q.address ++
        "; check ppsspp_breakpoint(action=mem_list)")⟩
    | some existing => next existing

def set : Outcome :=
  q.send f a (.cpuAdd q.address (q.enabled.getD true)) (f.set sessionId q.address q.condition)
    q.enabledIn

def remove : Outcome :=
  match a.before with
  | none => ⟨f, none, .raised⟩
  | some bps =>
    if bps.any fun bp => bp.address = q.address then
      q.send f a (.cpuRemove q.address) (f.drop sessionId q.address) fun _ => some true
    else ⟨f, none, .breakpointError ("no CPU breakpoint at 0x" ++ hex08 q.address)⟩

def update : Outcome :=
  q.send f a (.cpuUpdate q.address q.enabled q.log q.logFormat)
    (f.revise sessionId q.address q.condition) q.enabledIn

def memSet : Outcome :=
  q.send f a
    (.memAdd q.address q.size (q.read.getD true) (q.write.getD true) (q.enabled.getD true)
      (q.log.getD false) q.logFormat)
    (f.set sessionId q.address q.condition) fun _ => some (q.enabled.getD true)

def memRemove : Outcome :=
  q.withMemBp f a fun existing =>
    -- a watchpoint is removed by the size that the emulator lists, whatever the call says
    q.send f a (.memRemove q.address (existing.size.getD q.size)) (f.drop sessionId q.address)
      fun _ => some true

def memUpdate : Outcome :=
  q.withMemBp f a fun existing =>
    q.send f a
      (.memUpdate q.address (existing.size.getD q.size) q.enabled q.log q.logFormat
        (q.read.getD (existing.read.getD true)) (q.write.getD (existing.write.getD true))
        (existing.change.getD false))
      (f.revise sessionId q.address q.condition) fun _ => some (q.enabled.getD true)

end Call

/-- A call of the tool. -/
def breakpoint (sessionId : String) (f : Filters) (q : Call) (a : Answers) : Outcome :=
  if q.action.requiresAddress && q.address = 0 then
    ⟨f, none, .argsInvalid ("address 0x0 is not a valid breakpoint target (the zero address " ++
      "is reserved) for action=" ++ strRepr q.action.name)⟩
  else if q.action.requiresSize && q.size < 1 then
    ⟨f, none, .argsInvalid ("invalid memcheck size " ++ toString q.size ++ " for action=" ++
      strRepr q.action.name ++ " — must be a positive byte count (1/2/4 typical; removal " ++
      "matches the watchpoint's exact address+size pair)")⟩
  else
    match q.action with
    | .set => q.set sessionId f a
    | .remove => q.remove sessionId f a
    | .list => q.listing f a
    | .update => q.update sessionId f a
    | .memSet => q.memSet sessionId f a
    | .memRemove => q.memRemove sessionId f a
    | .memList => q.listing f a
    | .memUpdate => q.memUpdate sessionId f a

/-! ## Targets -/

/-- A breakpoint of the emulator: CPU breakpoints by address, watchpoints by address and
size. -/
inductive Target where
  | cpu (address : ℤ)
  | mem (address size : ℤ)
  deriving DecidableEq

def Target.address : Target → ℤ
  | cpu address => address
  | mem address _ => address

def Command.target : Command → Target
  | .cpuAdd address _ => .cpu address
  | .cpuRemove address => .cpu address
  | .cpuUpdate address _ _ _ => .cpu address
  | .memAdd address size _ _ _ _ _ => .mem address size
  | .memRemove address size => .mem address size
  | .memUpdate address size _ _ _ _ _ _ => .mem address size

/-- The condition that each armed breakpoint was last given: the outer `none` for one that
no call has armed, or that was removed since. -/
abbrev Given := Target → Option (Option String)

/-- A command that succeeded gives its target the condition of the call. -/
def Given.after (given : Given) (command : Command) (condition : Option String) : Given :=
  match command with
  | .cpuAdd .. | .memAdd .. => update given command.target (some (truthy condition))
  | .cpuRemove .. | .memRemove .. => update given command.target none
  | .cpuUpdate .. | .memUpdate .. =>
    match condition with
    | none => given
    | some _ => update given command.target (some (truthy condition))

/-! ## The machine -/

structure Managed where
  filters : Filters
  given : Given

/-- A call and the answers that it gets. -/
structure Managing where
  call : Call
  answers : Answers

def manageStep (sessionId : String) (s : Managed) (e : Managing) : Option Managed :=
  let outcome := breakpoint sessionId s.filters e.call e.answers
  some
    { filters := outcome.filters
      given :=
        match outcome.command with
        | some (command, true) => s.given.after command e.call.condition
        | _ => s.given }

/-- The calls of one session. -/
def managing (sessionId : String) : Machine Managed Managing := ⟨manageStep sessionId⟩

/-- A session before its first call. -/
def Managed.fresh : Managed := ⟨fun _ => none, fun _ => none⟩

end Breakpoint
