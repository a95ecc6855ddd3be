import Mathlib.Logic.Function.Basic
import PpssppDfx.Semantics.DropOldest

/-!
# The broadcast dispatcher

One task consumes the transport's broadcasts and puts each into the queue of its event name.
`cpu.stepping` broadcasts go to every stepping subscription as well. All these queues are
bounded and drop their oldest broadcast.

## Main definitions

* `Broadcasts.Observer` — the queues and the subscriptions
* `Broadcasts.Observer.dispatch` — what the dispatcher does with one broadcast
-/

set_option autoImplicit false

namespace Broadcasts

open Semantics Function

/-- `_SUBSCRIBED_EVENTS`. -/
inductive EventName where
  | gameStart
  | gameQuit
  | gamePause
  | gameResume
  | log
  | cpuResume
  | cpuStepping
  | gpuStatsGet
  deriving DecidableEq

/-- The states of a game. -/
inductive GameState where
  | loading
  | running
  | paused
  | quit
  deriving DecidableEq

/-- `_TRANSITIONS`. -/
def transitions : GameState → EventName → Option GameState
  | .loading, .gameStart => some .running
  | .running, .gamePause => some .paused
  | .running, .gameQuit => some .quit
  | .paused, .gameResume => some .running
  | _, _ => none

def eventQueueMax : ℕ := 64

def subscriptionMax : ℕ := 32

/-- A `SteppingSubscription`. -/
structure Subscription (μ : Type*) where
  queue : List μ
  closed : Bool

/-- A `GameStateObserver`. Subscriptions are objects: the list names those that are fed. -/
structure Observer (μ : Type*) where
  state : GameState
  queues : EventName → List μ
  steppingSubscribers : List ℕ
  subscriptions : ℕ → Option (Subscription μ)
  nextSubscription : ℕ

/-- An observer that has just been constructed. -/
def init (μ : Type*) : Observer μ where
  state := .loading
  queues := fun _ => []
  steppingSubscribers := []
  subscriptions := fun _ => none
  nextSubscription := 0

variable {μ : Type*}

/-- `_offer`: a closed subscription takes nothing. -/
def Subscription.offer (msg : μ) (sub : Subscription μ) : Subscription μ :=
  if sub.closed then sub
  else { sub with queue := pushDropOldest subscriptionMax sub.queue msg }

namespace Observer

variable (o : Observer μ)

/-- Put a broadcast into the queue of an event name. -/
def put (name : EventName) (msg : μ) : Observer μ :=
  { o with
    queues := update o.queues name (pushDropOldest eventQueueMax (o.queues name) msg) }

/-- Change one subscription. -/
def modifySubscription (i : ℕ) (f : Subscription μ → Subscription μ) : Observer μ :=
  { o with subscriptions := update o.subscriptions i ((o.subscriptions i).map f) }

/-- Offer a broadcast to every subscription in the list. -/
def offerAll (msg : μ) : Observer μ :=
  o.steppingSubscribers.foldl (fun o i => o.modifySubscription i (.offer msg)) o

/-- `_apply_transition`; an invalid one is only logged. -/
def applyTransition (name : EventName) : Observer μ :=
  match transitions o.state name with
  | some state => { o with state := state }
  | none => o

/-- One pass of `_dispatcher`; `none` is an event name without a queue. -/
def dispatch (name : Option EventName) (msg : μ) : Observer μ :=
  match name with
  | none => o
  | some .cpuStepping => (o.put .cpuStepping msg).offerAll msg
  | some .log => o.put .log msg
  | some .cpuResume => o.put .cpuResume msg
  | some .gpuStatsGet => o.put .gpuStatsGet msg
  | some name => (o.put name msg).applyTransition name

/-- `subscribe_stepping`. -/
def subscribeStepping : Observer μ :=
  { o with
    steppingSubscribers := o.steppingSubscribers ++ [o.nextSubscription]
    subscriptions := update o.subscriptions o.nextSubscription (some ⟨[], false⟩)
    nextSubscription := o.nextSubscription + 1 }

/-- `close` of a subscription, which `_remove_stepping_subscription` takes off the list. -/
def close (i : ℕ) : Observer μ :=
  match o.subscriptions i with
  | some sub =>
    if sub.closed then o
    else
      { o with
        steppingSubscribers := o.steppingSubscribers.erase i
        subscriptions := update o.subscriptions i (some { sub with closed := true }) }
  | none => o

/-- `get_nowait` of a subscription, with what it takes. -/
def get (i : ℕ) : Option (μ × Observer μ) :=
  match o.subscriptions i with
  | some ⟨msg :: rest, closed⟩ =>
    some (msg, { o with subscriptions := update o.subscriptions i (some ⟨rest, closed⟩) })
  | _ => none

/-- `drain` of a subscription. -/
def drain (i : ℕ) : Observer μ :=
  o.modifySubscription i fun sub => { sub with queue := [] }

/-- `get_nowait` of the queue of an event name, with what it takes. -/
def take (name : EventName) : Option (μ × Observer μ) :=
  match o.queues name with
  | msg :: rest => some (msg, { o with queues := update o.queues name rest })
  | [] => none

/-- `drain_resume`. -/
def drainResume : Observer μ := { o with queues := update o.queues .cpuResume [] }

/-! ## One broadcast -/

@[simp] theorem applyTransition_queues (name : EventName) :
    (o.applyTransition name).queues = o.queues := by
  unfold applyTransition
  split <;> rfl

@[simp] theorem applyTransition_steppingSubscribers (name : EventName) :
    (o.applyTransition name).steppingSubscribers = o.steppingSubscribers := by
  unfold applyTransition
  split <;> rfl

@[simp] theorem applyTransition_subscriptions (name : EventName) :
    (o.applyTransition name).subscriptions = o.subscriptions := by
  unfold applyTransition
  split <;> rfl

@[simp] theorem applyTransition_nextSubscription (name : EventName) :
    (o.applyTransition name).nextSubscription = o.nextSubscription := by
  unfold applyTransition
  split <;> rfl

@[simp] theorem offerAll_queues (msg : μ) : (o.offerAll msg).queues = o.queues := by
  suffices h : ∀ (l : List ℕ) (o : Observer μ),
      (l.foldl (fun o i => o.modifySubscription i (.offer msg)) o).queues = o.queues from
    h o.steppingSubscribers o
  intro l
  induction l with
  | nil => exact fun _ => rfl
  | cons i rest ih => exact fun o => ih (o.modifySubscription i (.offer msg))

/-- A broadcast goes to the queue of its name and to no other queue. -/
theorem dispatch_queues (name : EventName) (msg : μ) :
    (o.dispatch (some name) msg).queues =
      update o.queues name (pushDropOldest eventQueueMax (o.queues name) msg) := by
  cases name <;> simp [dispatch, put]

end Observer

end Broadcasts
