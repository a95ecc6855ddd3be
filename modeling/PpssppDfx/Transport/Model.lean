import Mathlib.Logic.Function.Basic
import PpssppDfx.Python.Value
import PpssppDfx.Semantics.DropOldest
import PpssppDfx.Semantics.Machine

/-!
# The debugger transport

`WsTransport` correlates replies by ticket: a call registers a future under the
next ticket, sends, and awaits the future; the receive loop resolves the future a
frame names and queues every other frame. Tasks interleave at awaits only, so one
event of the machine runs one task from an await to its next one.

Any number of calls, reconnects and closes are in flight. The reconnect that a
call may await before it registers is not tied to that call: connects and
handshake calls start at any time, which allows every order that the reconnect
lock allows and more. The diagnostics records are left out.

## Main definitions

* `Transport.State` — the fields of `WsTransport` and the tasks that use them
* `Transport.dispatch` — what the receive loop does with one frame
* `Transport.apply` — one slice of one task
* `Transport.machine` — the transport as a labeled machine
-/

set_option autoImplicit false

namespace Transport

open Python Semantics

/-- The ticket of the `n`-th message. -/
def ticketName (n : ℕ) : String := "t" ++ toString n

/-- A call's future. `peerError` is the exception made from an error frame. -/
inductive Future where
  | waiting
  | result (data : Dict)
  | peerError (data : Dict)
  | connectionError (message : String)
  | cancelled

/-- The future is not done. -/
def Future.isWaiting : Future → Bool
  | .waiting => true
  | _ => false

/-- The future was resolved, by a frame or by a lost connection. -/
def Future.isResolved : Future → Bool
  | .result _ => true
  | .peerError _ => true
  | .connectionError _ => true
  | _ => false

/-- Why an awaiting call is woken without its future: its timeout or a cancellation. -/
inductive Interrupt where
  | timeout
  | cancel
  deriving DecidableEq

/-- How a call ended. -/
inductive Outcome where
  | returned (data : Dict)
  | peerError (data : Dict)
  | connectionError (message : String)
  | sendFailed
  | notConnected
  | timedOut
  | cancelled

/-- The await a call stands at. -/
inductive CallPhase where
  | reconnecting
  | sending
  | waiting
  /-- Timed out, and awaiting the nested `cpu.status` call of the stepping probe. -/
  | probing
  | exited (outcome : Outcome)

/-- One execution of `call()`. -/
structure Call where
  event : String
  /-- The call whose timeout handler issued this one. -/
  parent : Option ℕ
  phase : CallPhase
  /-- The counter value of the ticket, and the socket the message was sent on. -/
  ticket : Option ℕ
  socket : Option ℕ
  future : Future
  interrupt : Option Interrupt
  /-- How often the future was resolved. -/
  resolutions : ℕ

def CallPhase.isReconnecting : CallPhase → Bool
  | .reconnecting => true
  | _ => false

def CallPhase.isSending : CallPhase → Bool
  | .sending => true
  | _ => false

def CallPhase.isWaiting : CallPhase → Bool
  | .waiting => true
  | _ => false

/-- The call has registered its ticket and has not left its two guarded awaits. -/
def Call.live (c : Call) : Bool := c.phase.isSending || c.phase.isWaiting

inductive SocketState where
  | open
  | closing
  | closed
  deriving DecidableEq

/-- How a receive loop ended. -/
inductive LoopEnd where
  | stateCheck
  | connectionClosed
  | exception
  | cancelled
  deriving DecidableEq

inductive LoopPhase where
  | starting
  | receiving (socket : ℕ)
  | ended (cause : LoopEnd)
  deriving DecidableEq

/-- A receive-loop task, named by the socket whose `connect()` started it. -/
structure Loop where
  phase : LoopPhase
  cancelRequested : Bool
  /-- A `close()` awaits this task and fails the pending futures after it. -/
  closeAwaits : Bool

/-- The await a `connect()` stands at. -/
inductive ConnectPhase where
  | awaitingLoop (loop : ℕ)
  | closingOld (socket : ℕ)
  | opening
  | closingUnselected (socket : ℕ)
  | returned
  | raised
  deriving DecidableEq

/-- The await a `close()` stands at. -/
inductive ClosePhase where
  | awaitingLoop (loop : ℕ)
  | closingSocket (socket : ℕ)
  | returned
  | raised
  deriving DecidableEq

/-- The fields of a `WsTransport`, its sockets, and the tasks that run its methods. -/
structure State where
  ticketCounter : ℕ
  /-- `_pending`: the call whose future waits under a ticket. -/
  pending : List (String × ℕ)
  ffTickets : List String
  eventsQueue : List Dict
  versionQueue : List Dict
  probingStepping : Bool
  ws : Option ℕ
  sockets : ℕ → SocketState
  nextSocket : ℕ
  recvTask : Option ℕ
  loops : ℕ → Option Loop
  calls : ℕ → Option Call
  connects : ℕ → Option ConnectPhase
  closes : ℕ → Option ClosePhase
  /-- The counter value when replies of a socket last became unroutable. -/
  severed : ℕ → Option ℕ

def init : State where
  ticketCounter := 0
  pending := []
  ffTickets := []
  eventsQueue := []
  versionQueue := []
  probingStepping := false
  ws := none
  sockets := fun _ => .closed
  nextSocket := 0
  recvTask := none
  loops := fun _ => none
  calls := fun _ => none
  connects := fun _ => none
  closes := fun _ => none
  severed := fun _ => none

def eventsQueueMax : ℕ := 256

def versionQueueMax : ℕ := 8

def fireAndForgetTicketMemory : ℕ := 64

/-- `is_connected()`. -/
def isConnected (s : State) : Bool :=
  match s.ws with
  | some socket => s.sockets socket == .open
  | none => false

/-- Change the record of one call. -/
def modifyCall (s : State) (k : ℕ) (f : Call → Call) : State :=
  { s with calls := Function.update s.calls k ((s.calls k).map f) }

/-- Create the record of one call. -/
def setCall (s : State) (k : ℕ) (c : Call) : State :=
  { s with calls := Function.update s.calls k (some c) }

/-- `_pending.pop(ticket, None)`. -/
def popTicket (s : State) (ticket : String) : State :=
  { s with pending := s.pending.filter fun entry => entry.1 != ticket }

/-- Pop the ticket a call registered, if it has one. -/
def popOwn (s : State) (k : ℕ) : State :=
  match (s.calls k).bind Call.ticket with
  | some n => popTicket s (ticketName n)
  | none => s

/-- `set_result` or `set_exception`; a future that is done stays as it is. -/
def Call.resolve (c : Call) (future : Future) : Call :=
  if c.future.isWaiting then { c with future := future, resolutions := c.resolutions + 1 } else c

/-- Resolve the futures of the given entries with `ConnectionError(message)`. -/
def failEntries (s : State) (message : String) : List (String × ℕ) → State
  | [] => s
  | (_, k) :: rest =>
    failEntries (modifyCall s k fun c => c.resolve (.connectionError message)) message rest

/-- Clear the pending table and fail every future that was in it. -/
def failPending (s : State) (message : String) : State :=
  failEntries { s with pending := [] } message s.pending

/-- Record that replies on a socket can no longer be routed. -/
def sever (s : State) (socket : Option ℕ) : State :=
  match socket with
  | some c => { s with severed := Function.update s.severed c (some s.ticketCounter) }
  | none => s

/-! ## Receiving -/

/-- The ticket a frame carries. -/
def frameTicket (data : Dict) : Option Value := data.get? "ticket"

/-- The key of the pending table that the ticket of a frame names. `none` is the
`TypeError` of an unhashable ticket; `some none` is no entry. -/
def pendingKey (s : State) (data : Dict) : Option (Option (String × ℕ)) :=
  match frameTicket data with
  | some (.str ticket) =>
    -- an empty ticket is falsy, and not looked up
    if ticket = "" then some none else some (s.pending.find? fun entry => entry.1 == ticket)
  -- a list or an object with content is truthy, and cannot be a key
  | some (.list items) => if items.isEmpty then some none else none
  | some (.dict entries) => if entries.isEmpty then some none else none
  | _ => some none

/-- `event == "error"`. -/
def isErrorFrame (data : Dict) : Bool :=
  match data.get? "event" with
  | some (.str event) => event == "error"
  | _ => false

/-- Queue a frame that no pending ticket claims. -/
def queueFrame (s : State) (data : Dict) : State :=
  let eventName := ((data.get? "event").getD (.str "")).text
  if eventName = "version" then
    { s with versionQueue := pushDropOldest versionQueueMax s.versionQueue data }
  else
    { s with eventsQueue := pushDropOldest eventsQueueMax s.eventsQueue data }

/-- What the receive loop does with one message; `none` is one that does not parse.
A message that is not an object, or has an unhashable ticket, is dropped. -/
def dispatch (s : State) (raw : Option Value) : State :=
  match raw with
  | some (.dict data) =>
    match pendingKey s data with
    | none => s
    | some none => queueFrame s data
    -- the entry is popped before the future is resolved
    | some (some (ticket, k)) =>
      let future := if isErrorFrame data then .peerError data else .result data
      modifyCall (popTicket s ticket) k fun c => c.resolve future
  | _ => s

/-- Change the record of one receive loop. -/
def modifyLoop (s : State) (l : ℕ) (f : Loop → Loop) : State :=
  { s with loops := Function.update s.loops l ((s.loops l).map f) }

/-- End a receive loop. -/
def endLoop (s : State) (l : ℕ) (cause : LoopEnd) : State :=
  modifyLoop s l fun loop => { loop with phase := .ended cause }

/-- The head of the receive loop: await the current socket, or leave. -/
def loopHead (s : State) (l : ℕ) : State :=
  match s.ws with
  | some socket =>
    if s.sockets socket = .open then
      modifyLoop s l fun loop => { loop with phase := .receiving socket }
    else sever (endLoop s l .stateCheck) (some l)
  | none => sever (endLoop s l .stateCheck) (some l)

/-! ## Calls -/

/-- A call before it has a ticket. -/
def unregistered (event : String) (parent : Option ℕ) (phase : CallPhase) : Call :=
  { event := event, parent := parent, phase := phase, ticket := none, socket := none,
    future := .waiting, interrupt := none, resolutions := 0 }

/-- Take the next ticket, register a future under it and start to send. -/
def register (s : State) (k : ℕ) (event : String) (parent : Option ℕ) : State :=
  let n := s.ticketCounter + 1
  let call : Call :=
    { event := event, parent := parent, phase := .sending, ticket := some n, socket := s.ws,
      future := .waiting, interrupt := none, resolutions := 0 }
  let entries := (popTicket s (ticketName n)).pending ++ [(ticketName n, k)]
  setCall { s with ticketCounter := n, pending := entries } k call

/-- The first slice of `call()`. -/
def enterCall (s : State) (k : ℕ) (event : String) (parent : Option ℕ) : State :=
  if isConnected s then register s k event parent
  -- without a connection the call connects first, and has no ticket yet
  else setCall s k (unregistered event parent .reconnecting)

/-- Leave a call. A nested call releases the probe latch and ends its parent too: the
parent raises its own timeout, or the cancellation that passes through it. -/
def exitCall (s : State) (k : ℕ) (outcome : Outcome) : State :=
  match (s.calls k).bind Call.parent with
  | none => modifyCall s k fun c => { c with phase := .exited outcome }
  | some p =>
    let raised : Outcome := match outcome with
      | .cancelled => .cancelled
      | _ => .timedOut
    modifyCall
      (modifyCall { s with probingStepping := false } k
        fun c => { c with phase := .exited outcome })
      p fun c => { c with phase := .exited raised }

/-- A call whose wait timed out pops its ticket and probes, unless a probe is running. -/
def timeOut (s : State) (k child : ℕ) : State :=
  let s := popOwn s k
  -- one probe at a time: the latch is for all calls of the transport
  if s.probingStepping then exitCall s k .timedOut
  else
    let s := modifyCall { s with probingStepping := true } k fun c => { c with phase := .probing }
    enterCall s child "cpu.status" (some k)

/-- Resume a call whose future is done. -/
def wakeCall (s : State) (k child : ℕ) : State :=
  match s.calls k with
  | none => s
  | some c =>
    match c.interrupt, c.future with
    -- an interrupt outranks a future that was resolved at the same time
    | some .cancel, _ => exitCall (popOwn s k) k .cancelled
    | some .timeout, _ => timeOut s k child
    -- the loop has popped the ticket of a reply
    | none, .result data => exitCall s k (.returned data)
    | none, .peerError data => exitCall (popOwn s k) k (.peerError data)
    | none, .connectionError message => exitCall (popOwn s k) k (.connectionError message)
    | none, .cancelled => exitCall (popOwn s k) k .cancelled
    | none, .waiting => s

/-- A timeout or a cancellation reaches an awaiting call: its future is cancelled unless
it is done already. A cancellation outranks a timeout. -/
def Call.interrupted (c : Call) (i : Interrupt) : Call :=
  { c with
    future := if c.future.isWaiting then .cancelled else c.future
    interrupt := if c.interrupt = some .cancel then some .cancel else some i }

/-- `fire_and_forget()` once a socket is assigned. -/
def fireAndForget (s : State) : State :=
  let n := s.ticketCounter + 1
  { s with
    ticketCounter := n
    ffTickets := pushDropOldest fireAndForgetTicketMemory s.ffTickets (ticketName n) }

/-! ## Connecting and closing -/

/-- The loop task is done, and how. -/
def loopEnd (s : State) (l : ℕ) : Option LoopEnd :=
  match s.loops l with
  | some loop =>
    match loop.phase with
    | .ended cause => some cause
    | _ => none
  | none => none

def setConnect (s : State) (j : ℕ) (phase : ConnectPhase) : State :=
  { s with connects := Function.update s.connects j (some phase) }

def setClose (s : State) (i : ℕ) (phase : ClosePhase) : State :=
  { s with closes := Function.update s.closes i (some phase) }

/-- `connect()` once the old loop is gone: close the old socket, if there is one. -/
def connectDrop (s : State) (j : ℕ) : State :=
  match s.ws with
  | some socket => setConnect s j (.closingOld socket)
  | none => setConnect s j .opening

/-- The first slice of `connect()`: cancel a receive loop that still runs. -/
def connectBegin (s : State) (j : ℕ) : State :=
  match s.recvTask with
  | some l =>
    if (loopEnd s l).isNone then
      setConnect (modifyLoop s l fun loop => { loop with cancelRequested := true }) j
        (.awaitingLoop l)
    else connectDrop s j
  | none => connectDrop s j

/-- The socket of a connect opened; without the subprotocol it is closed again. -/
def connectOpened (s : State) (j : ℕ) (selected : Bool) : State :=
  let socket := s.nextSocket
  -- nobody reads the old socket any more
  let s := sever s s.ws
  let s := { s with
    ws := some socket
    nextSocket := socket + 1
    sockets := Function.update s.sockets socket .open }
  if selected then
    let loop : Loop := { phase := .starting, cancelRequested := false, closeAwaits := false }
    let loops := Function.update s.loops socket (some loop)
    setConnect { s with recvTask := some socket, loops := loops } j .returned
  else setConnect s j (.closingUnselected socket)

/-- `self.ws = None`. -/
def dropSocket (s : State) : State := { sever s s.ws with ws := none }

/-- `close()` once the loop is gone: fail the pending futures, then close the socket. -/
def closeFail (s : State) (i : ℕ) (l : Option ℕ) : State :=
  let s := sever (failPending s "WebSocket closed") l
  match s.ws with
  | some socket =>
    if s.sockets socket = .open then setClose s i (.closingSocket socket)
    else setClose s i .returned
  | none => setClose s i .returned

/-- `close()` when the awaited loop is done. An exception of the loop is raised again. -/
def closeAfterLoop (s : State) (i l : ℕ) (cause : LoopEnd) : State :=
  if cause = .exception then setClose s i .raised
  else closeFail { s with recvTask := none } i (some l)

/-- The first slice of `close()`. -/
def closeBegin (s : State) (i : ℕ) : State :=
  match s.recvTask with
  | some l =>
    match loopEnd s l with
    | some cause => closeAfterLoop s i l cause
    | none =>
      let cancel : Loop → Loop :=
        fun loop => { loop with cancelRequested := true, closeAwaits := true }
      setClose (modifyLoop s l cancel) i (.awaitingLoop l)
  | none => closeFail s i none

/-! ## The machine -/

/-- Slices of the tasks, with the outcome of the await that starts each. -/
inductive Event where
  | callStart (k : ℕ) (event : String)
  | reconnected (k : ℕ)
  | reconnectFailed (k : ℕ) (cancelled : Bool)
  | sent (k : ℕ)
  | sendFailed (k : ℕ) (cancelled : Bool)
  | interrupt (k : ℕ) (i : Interrupt)
  | wake (k child : ℕ)
  | fireAndForget
  | loopStart (l : ℕ)
  | recvTimeout (l : ℕ)
  | recvFrame (l : ℕ) (raw : Option Value)
  | recvClosed (l : ℕ)
  | recvFailed (l : ℕ)
  | loopCancelled (l : ℕ)
  | socketState (socket : ℕ) (state : SocketState)
  | connectBegin (j : ℕ)
  | connectLoopEnded (j : ℕ)
  | connectOldClosed (j : ℕ)
  | connectOpened (j : ℕ) (selected : Bool)
  | connectUnselectedClosed (j : ℕ)
  | connectRaised (j : ℕ)
  | closeBegin (i : ℕ)
  | closeLoopEnded (i : ℕ)
  | closeSocketClosed (i : ℕ) (raised : Bool)

/-- The loop awaits `recv()` and no cancellation is on its way; on which socket. -/
def receivingOn (s : State) (l : ℕ) : Option ℕ :=
  match s.loops l with
  | some loop =>
    match loop.phase, loop.cancelRequested with
    | .receiving socket, false => some socket
    | _, _ => none
  | none => none

/-- A socket does not open again. -/
def SocketState.canBecome : SocketState → SocketState → Bool
  | .open, _ => true
  | .closing, .open => false
  | .closing, _ => true
  | .closed, .closed => true
  | .closed, _ => false

/-- The await outcomes that can happen in a state. -/
def enabled (s : State) : Event → Bool
  | .callStart k _ => (s.calls k).isNone
  | .reconnected k => (s.calls k).any fun c => c.phase.isReconnecting
  | .reconnectFailed k _ => (s.calls k).any fun c => c.phase.isReconnecting
  | .sent k => (s.calls k).any fun c => c.phase.isSending
  | .sendFailed k _ => (s.calls k).any fun c => c.phase.isSending
  | .interrupt k _ => (s.calls k).any fun c => c.phase.isWaiting
  | .wake k child =>
    (s.calls k).any (fun c => c.phase.isWaiting && !c.future.isWaiting) && (s.calls child).isNone
  | .fireAndForget => s.ws.isSome
  | .loopStart l =>
    (s.loops l).any fun loop => loop.phase == .starting && !loop.cancelRequested
  | .recvTimeout l => (receivingOn s l).isSome
  | .recvFrame l _ => (receivingOn s l).isSome
  | .recvClosed l => (receivingOn s l).any fun socket => s.sockets socket != .open
  | .recvFailed l => (receivingOn s l).isSome
  | .loopCancelled l =>
    (s.loops l).any (fun loop => loop.cancelRequested) && (loopEnd s l).isNone
  | .socketState socket state => (s.sockets socket).canBecome state
  | .connectBegin j => (s.connects j).isNone
  | .connectLoopEnded j =>
    match s.connects j with
    | some (.awaitingLoop l) => (loopEnd s l).isSome
    | _ => false
  | .connectOldClosed j =>
    match s.connects j with
    | some (.closingOld _) => true
    | _ => false
  | .connectOpened j _ => s.connects j == some .opening
  | .connectUnselectedClosed j =>
    match s.connects j with
    | some (.closingUnselected _) => true
    | _ => false
  | .connectRaised j =>
    match s.connects j with
    | some (.closingOld _) => true
    | some .opening => true
    | some (.closingUnselected _) => true
    | _ => false
  | .closeBegin i => (s.closes i).isNone
  | .closeLoopEnded i =>
    match s.closes i with
    | some (.awaitingLoop l) => (loopEnd s l).isSome
    | _ => false
  | .closeSocketClosed i _ =>
    match s.closes i with
    | some (.closingSocket _) => true
    | _ => false

/-- One slice of one task. -/
def apply (s : State) : Event → State
  | .callStart k event => enterCall s k event none
  | .reconnected k =>
    match s.calls k with
    | some c =>
      if s.ws.isSome then register s k c.event c.parent else exitCall s k .notConnected
    | none => s
  | .reconnectFailed k cancelled => exitCall s k (if cancelled then .cancelled else .notConnected)
  | .sent k => modifyCall s k fun c => { c with phase := .waiting }
  | .sendFailed k cancelled =>
    exitCall (popOwn s k) k (if cancelled then .cancelled else .sendFailed)
  | .interrupt k i => modifyCall s k fun c => c.interrupted i
  | .wake k child => wakeCall s k child
  | .fireAndForget => fireAndForget s
  | .loopStart l => loopHead s l
  | .recvTimeout l => loopHead s l
  | .recvFrame l raw => loopHead (dispatch s raw) l
  | .recvClosed l =>
    sever (endLoop (failPending s "PPSSPP WebSocket disconnected") l .connectionClosed) (some l)
  | .recvFailed l => sever (endLoop s l .exception) (some l)
  | .loopCancelled l =>
    -- A `close()` that awaits the loop fails the futures in its next slice.
    if (s.loops l).any (fun loop => loop.closeAwaits) then endLoop s l .cancelled
    else sever (endLoop s l .cancelled) (some l)
  | .socketState socket state =>
    { s with sockets := Function.update s.sockets socket state }
  | .connectBegin j => connectBegin s j
  | .connectLoopEnded j => connectDrop { s with recvTask := none } j
  | .connectOldClosed j => setConnect (dropSocket s) j .opening
  | .connectOpened j selected => connectOpened s j selected
  | .connectUnselectedClosed j => setConnect (dropSocket s) j .raised
  | .connectRaised j => setConnect s j .raised
  | .closeBegin i => closeBegin s i
  | .closeLoopEnded i =>
    match s.closes i with
    | some (.awaitingLoop l) => closeAfterLoop s i l ((loopEnd s l).getD .cancelled)
    | _ => s
  | .closeSocketClosed i raised => setClose s i (if raised then .raised else .returned)

/-- The transport. -/
def machine : Machine State Event where
  step s e := if enabled s e then some (apply s e) else none

theorem machine_step_eq_some_iff {s t : State} {e : Event} :
    machine.step s e = some t ↔ enabled s e = true ∧ apply s e = t := by
  simp [machine]

end Transport
