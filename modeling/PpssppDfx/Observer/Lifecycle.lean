import PpssppDfx.Observer.Dispatcher
import PpssppDfx.Semantics.Machine

/-!
# Starting and stopping the observer

`start()` looks whether there is a dispatcher, awaits the confirmation of the log broadcast
and creates the dispatcher and the log consumer. `stop()` cancels the tasks that it finds,
awaits their ends and clears the attributes that named them. Calls overlap at their awaits, so
that what a call looked at may be out of date when it writes.

## Main definitions

* `Broadcasts.lifecycle` — calls of `start` and `stop` on one observer, and the tasks
* `Broadcasts.Single` — one dispatcher at most is consuming
* `Broadcasts.Orderly` — no dispatcher runs when `start` creates one or `stop` forgets it

## Main results

* `named_of_reaches` — over orderly steps a consuming dispatcher is the one of the attribute
* `single_of_orderly` — orderly runs have a single dispatcher, and any other step leads to two
-/

set_option autoImplicit false

namespace Broadcasts

open Semantics Function

/-! ## Tasks and calls -/

/-- The coroutine of a background task. -/
inductive Role where
  | dispatcher
  | logConsumer
  deriving DecidableEq

inductive TaskStatus where
  | running
  /-- `cancel()` was called, and the coroutine has not met it yet. -/
  | cancelling
  | done
  deriving DecidableEq

structure BackgroundTask where
  role : Role
  status : TaskStatus
  deriving DecidableEq

/-- `cancel()`. -/
def BackgroundTask.cancel (task : BackgroundTask) : BackgroundTask :=
  { task with status := if task.status = .done then .done else .cancelling }

/-- The await a call stands at. -/
inductive CallPhase where
  | idle
  /-- `start()` awaits the answer to `broadcast.config.set`. -/
  | confirming
  /-- `stop()` awaits the first of these tasks. -/
  | joining (tasks : List ℕ)
  deriving DecidableEq

/-- The attributes that name the tasks, the tasks and the calls. -/
structure Lifecycle where
  taskAttr : Role → Option ℕ
  tasks : ℕ → Option BackgroundTask
  nextTask : ℕ
  calls : ℕ → CallPhase

inductive LifecycleEvent where
  | start (call : ℕ)
  /-- `broadcast.config.set` is answered, or has failed. -/
  | answered (call : ℕ)
  | stop (call : ℕ)
  /-- The task that the call awaits has ended. -/
  | joined (call : ℕ)
  /-- The await of the call is cancelled from outside. -/
  | interrupted (call : ℕ)
  /-- A coroutine meets its cancellation. -/
  | ended (task : ℕ)
  deriving DecidableEq

namespace Lifecycle

/-- An observer that has just been constructed. -/
def init : Lifecycle := ⟨fun _ => none, fun _ => none, 0, fun _ => .idle⟩

variable (s : Lifecycle)

def setCall (call : ℕ) (phase : CallPhase) : Lifecycle :=
  { s with calls := update s.calls call phase }

/-- `asyncio.ensure_future`, and the attribute for it. -/
def spawn (role : Role) : Lifecycle :=
  { s with
    taskAttr := update s.taskAttr role (some s.nextTask)
    tasks := update s.tasks s.nextTask (some ⟨role, .running⟩)
    nextTask := s.nextTask + 1 }

def cancelTask (task : ℕ) : Lifecycle :=
  { s with tasks := update s.tasks task ((s.tasks task).map .cancel) }

/-- The tasks that `stop()` collects. -/
def collected : List ℕ := [Role.dispatcher, Role.logConsumer].filterMap s.taskAttr

/-- The attributes are set to `None`. -/
def clear : Lifecycle := { s with taskAttr := fun _ => none }

/-- `is_running()`. -/
def isRunning : Bool :=
  (s.taskAttr .dispatcher).any fun task => (s.tasks task).any fun t => t.status ≠ .done

/-- One step. -/
def step : LifecycleEvent → Option Lifecycle
  | .start call =>
    match s.calls call with
    | .idle =>
      -- already started
      if (s.taskAttr .dispatcher).isSome then some s
      else some (s.setCall call .confirming)
    | _ => none
  | .answered call =>
    match s.calls call with
    | .confirming => some (((s.spawn .dispatcher).spawn .logConsumer).setCall call .idle)
    | _ => none
  | .stop call =>
    match s.calls call with
    | .idle =>
      match s.collected with
      | [] => some s.clear
      | tasks => some ((tasks.foldl cancelTask s).setCall call (.joining tasks))
    | _ => none
  | .joined call =>
    match s.calls call with
    | .joining (task :: rest) =>
      if (s.tasks task).any fun t => t.status = .done then
        match rest with
        | [] => some (s.clear.setCall call .idle)
        | rest => some (s.setCall call (.joining rest))
      else none
    | _ => none
  | .interrupted call =>
    -- neither call gets to the attributes
    match s.calls call with
    | .idle => none
    | _ => some (s.setCall call .idle)
  | .ended task =>
    match s.tasks task with
    | some ⟨role, .cancelling⟩ =>
      some { s with tasks := update s.tasks task (some ⟨role, .done⟩) }
    | _ => none

/-- What a step can do. -/
inductive Takes (s : Lifecycle) : LifecycleEvent → Lifecycle → Prop
  | known (call : ℕ) : Takes s (.start call) s
  | confirms (call : ℕ) : s.taskAttr .dispatcher = none →
      Takes s (.start call) (s.setCall call .confirming)
  | creates (call : ℕ) :
      Takes s (.answered call) (((s.spawn .dispatcher).spawn .logConsumer).setCall call .idle)
  | nothing (call : ℕ) : s.collected = [] → Takes s (.stop call) s.clear
  | cancels (call : ℕ) : Takes s (.stop call)
      ((s.collected.foldl cancelTask s).setCall call (.joining s.collected))
  | joins (call task : ℕ) (rest : List ℕ) : s.calls call = .joining (task :: rest) → rest ≠ [] →
      Takes s (.joined call) (s.setCall call (.joining rest))
  | clears (call task : ℕ) : s.calls call = .joining [task] →
      Takes s (.joined call) (s.clear.setCall call .idle)
  | gives (call : ℕ) : Takes s (.interrupted call) (s.setCall call .idle)
  | ends (task : ℕ) (role : Role) : s.tasks task = some ⟨role, .cancelling⟩ →
      Takes s (.ended task) { s with tasks := update s.tasks task (some ⟨role, .done⟩) }

variable {s}

theorem takes_of_step {e : LifecycleEvent} {t : Lifecycle} (hstep : s.step e = some t) :
    s.Takes e t := by
  cases e with
  | start call =>
    rw [step] at hstep
    split at hstep
    · split at hstep
      · obtain rfl := Option.some.inj hstep
        exact .known call
      next hnone =>
        obtain rfl := Option.some.inj hstep
        exact .confirms call (by simpa using hnone)
    · cases hstep
  | answered call =>
    rw [step] at hstep
    split at hstep
    · obtain rfl := Option.some.inj hstep
      exact .creates call
    · cases hstep
  | stop call =>
    rw [step] at hstep
    split at hstep
    · split at hstep
      next hnil =>
        obtain rfl := Option.some.inj hstep
        exact .nothing call hnil
      next =>
        obtain rfl := Option.some.inj hstep
        exact .cancels call
    · cases hstep
  | joined call =>
    rw [step] at hstep
    split at hstep
    next task rest hcall =>
      split at hstep
      · split at hstep
        · obtain rfl := Option.some.inj hstep
          exact .clears call task hcall
        next hmore =>
          obtain rfl := Option.some.inj hstep
          exact .joins call task rest hcall hmore
      · cases hstep
    · cases hstep
  | interrupted call =>
    rw [step] at hstep
    split at hstep
    · cases hstep
    · obtain rfl := Option.some.inj hstep
      exact .gives call
  | ended task =>
    rw [step] at hstep
    split at hstep
    next role htask =>
      obtain rfl := Option.some.inj hstep
      exact .ends task role htask
    · cases hstep

end Lifecycle

/-- `start` and `stop` on one observer, in any order. -/
def lifecycle : Machine Lifecycle LifecycleEvent := ⟨Lifecycle.step⟩

/-! ## Consuming dispatchers -/

/-- The task is a dispatcher that has not ended. -/
def Lifecycle.Consuming (s : Lifecycle) (task : ℕ) : Prop :=
  ∃ t, s.tasks task = some t ∧ t.role = .dispatcher ∧ t.status ≠ .done

/-- At most one dispatcher is consuming the events of the transport. -/
def Single (s : Lifecycle) : Prop :=
  ∀ task task', s.Consuming task → s.Consuming task' → task = task'

/-- When `start` creates a dispatcher, and when `stop` clears the attributes, the attribute
names no dispatcher that is running. -/
def Orderly (s : Lifecycle) : LifecycleEvent → Prop
  | .answered _ => s.isRunning = false
  | .joined call => (∃ task, s.calls call = .joining [task]) → s.isRunning = false
  | _ => True

namespace Lifecycle

variable {s : Lifecycle} {t task : ℕ} {role : Role}

theorem consuming_cancelTask : (s.cancelTask task).Consuming t ↔ s.Consuming t := by
  have htask : (s.cancelTask task).tasks t =
      if t = task then (s.tasks task).map .cancel else s.tasks t := update_apply _ _ _ _
  by_cases heq : t = task
  · subst heq
    rw [Consuming, htask, if_pos rfl]
    cases hold : s.tasks t with
    | none => simp [Consuming, hold]
    | some old =>
      -- a task that is cancelled has its role, and ends later
      simp only [Option.map_some, Option.some.injEq, Consuming, hold]
      refine ⟨?_, ?_⟩
      · rintro ⟨_, rfl, hrole, hstatus⟩
        exact ⟨old, rfl, hrole, fun hdone => hstatus (if_pos hdone)⟩
      · rintro ⟨_, rfl, hrole, hstatus⟩
        refine ⟨_, rfl, hrole, ?_⟩
        rw [BackgroundTask.cancel, if_neg hstatus]
        exact TaskStatus.noConfusion
  · rw [Consuming, htask, if_neg heq, Consuming]

theorem consuming_foldl_cancelTask (ids : List ℕ) :
    (ids.foldl cancelTask s).Consuming t ↔ s.Consuming t := by
  induction ids generalizing s with
  | nil => rfl
  | cons task ids ih => rw [List.foldl_cons, ih, consuming_cancelTask]

theorem taskAttr_foldl_cancelTask (ids : List ℕ) :
    (ids.foldl cancelTask s).taskAttr = s.taskAttr := by
  induction ids generalizing s with
  | nil => rfl
  | cons task ids ih => exact ih

/-- A start has one dispatcher more than before. -/
theorem consuming_creates {call : ℕ} :
    (((s.spawn .dispatcher).spawn .logConsumer).setCall call .idle).Consuming t ↔
      t = s.nextTask ∨ t ≠ s.nextTask + 1 ∧ s.Consuming t := by
  have htask : (((s.spawn .dispatcher).spawn .logConsumer).setCall call .idle).tasks t =
      update (update s.tasks s.nextTask (some ⟨.dispatcher, .running⟩)) (s.nextTask + 1)
        (some ⟨.logConsumer, .running⟩) t := rfl
  rw [Consuming, htask]
  by_cases hlog : t = s.nextTask + 1
  · rw [hlog, update_self]
    constructor
    · rintro ⟨log, hlogs, hrole, -⟩
      cases hlogs
      cases hrole
    · rintro (heq | ⟨hne, -⟩)
      · exact absurd heq (Nat.succ_ne_self _)
      · exact absurd rfl hne
  · rw [update_of_ne hlog]
    by_cases hnext : t = s.nextTask
    · rw [hnext, update_self]
      exact iff_of_true ⟨_, rfl, rfl, by decide⟩ (.inl rfl)
    · rw [update_of_ne hnext]
      exact ⟨fun h => .inr ⟨hlog, h⟩, fun h => (h.resolve_left hnext).2⟩

theorem consuming_ends (htask : s.tasks task = some ⟨role, .cancelling⟩)
    (h : Consuming { s with tasks := update s.tasks task (some ⟨role, .done⟩) } t) :
    s.Consuming t := by
  obtain ⟨old, hold, hrole, hstatus⟩ := h
  by_cases heq : t = task
  · subst heq
    change update s.tasks t _ t = some old at hold
    rw [update_self] at hold
    cases hold
    exact absurd rfl hstatus
  · change update s.tasks task _ t = some old at hold
    rw [update_of_ne heq] at hold
    exact ⟨old, hold, hrole, hstatus⟩

theorem isRunning_of_consuming (hattr : s.taskAttr .dispatcher = some t) (h : s.Consuming t) :
    s.isRunning = true := by
  obtain ⟨old, hold, -, hstatus⟩ := h
  simp [isRunning, hattr, hold, hstatus]

end Lifecycle

/-! ## Orderly runs -/

section Orderly

open Lifecycle

variable {s t : Lifecycle} {e : LifecycleEvent}

/-- A consuming dispatcher is the one that the attribute names. -/
def Named (s : Lifecycle) : Prop :=
  ∀ task, s.Consuming task → s.taskAttr .dispatcher = some task

/-- Where the attribute names no running dispatcher, there is none. -/
theorem Named.not_consuming (hnamed : Named s) (hidle : s.isRunning = false) (task : ℕ) :
    ¬ s.Consuming task := by
  intro h
  rw [isRunning_of_consuming (hnamed task h) h] at hidle
  cases hidle

theorem named_step (hnamed : Named s) (horderly : Orderly s e) (hstep : s.step e = some t) :
    Named t := by
  cases takes_of_step hstep with
  | known => exact hnamed
  | confirms => exact hnamed
  | joins => exact hnamed
  | gives => exact hnamed
  | creates call =>
    intro task htask
    rcases consuming_creates.mp htask with rfl | ⟨-, hold⟩
    · rfl
    · exact absurd hold (hnamed.not_consuming horderly task)
  | nothing call hnone =>
    -- nothing was collected, so that nothing is forgotten
    intro task htask
    have hattr := hnamed task htask
    have hmem : task ∈ s.collected := List.mem_filterMap.mpr ⟨.dispatcher, by decide, hattr⟩
    rw [hnone] at hmem
    cases hmem
  | cancels call =>
    intro task htask
    refine Eq.trans ?_ (hnamed task ((consuming_foldl_cancelTask s.collected).mp htask))
    exact congrFun (taskAttr_foldl_cancelTask s.collected) .dispatcher
  | clears call task hcall =>
    intro task' htask
    exact absurd htask (hnamed.not_consuming (horderly ⟨task, hcall⟩) task')
  | ends task role htask => exact fun task' h => hnamed task' (consuming_ends htask h)

theorem named_of_reaches (h : lifecycle.Reaches Orderly .init s) : Named s :=
  h.invariant (fun _ hnone => by obtain ⟨_, hold, -⟩ := hnone; cases hold)
    fun _ _ _ hs hok hstep => named_step hs hok hstep

theorem Named.single (hnamed : Named s) : Single s := fun task task' h h' =>
  Option.some.inj ((hnamed task h).symm.trans (hnamed task' h'))

end Orderly

/-! ## Other steps -/

section Disorderly

open Lifecycle

variable {s t : Lifecycle} {e : LifecycleEvent} {call : ℕ}

/-- Tasks are numbered as they are created, and the attributes name tasks of their role. -/
structure Lifecycle.Numbered (s : Lifecycle) : Prop where
  fresh : ∀ task, s.nextTask ≤ task → s.tasks task = none
  named : ∀ role task, s.taskAttr role = some task →
    ∃ status, s.tasks task = some ⟨role, status⟩

theorem Lifecycle.Numbered.lt (h : s.Numbered) {task : ℕ} {old : BackgroundTask}
    (htask : s.tasks task = some old) : task < s.nextTask := by
  by_contra hle
  rw [h.fresh task (Nat.le_of_not_lt hle)] at htask
  cases htask

theorem numbered_init : Lifecycle.init.Numbered where
  fresh _ _ := rfl
  named _ _ h := by cases h

theorem numbered_clear (h : s.Numbered) : s.clear.Numbered where
  fresh := h.fresh
  named _ _ hattr := by cases hattr

theorem numbered_cancelTask (h : s.Numbered) (task : ℕ) : (s.cancelTask task).Numbered where
  fresh task' hle := by
    show update s.tasks task _ task' = none
    by_cases heq : task' = task
    · subst heq
      rw [update_self, h.fresh task' hle, Option.map_none]
    · rw [update_of_ne heq, h.fresh task' hle]
  named role task' hattr := by
    obtain ⟨status, hold⟩ := h.named role task' hattr
    show ∃ status, update s.tasks task _ task' = _
    by_cases heq : task' = task
    · subst heq
      rw [update_self, hold]
      exact ⟨_, rfl⟩
    · rw [update_of_ne heq]
      exact ⟨status, hold⟩

theorem numbered_foldl_cancelTask (h : s.Numbered) (ids : List ℕ) :
    (ids.foldl cancelTask s).Numbered := by
  induction ids generalizing s with
  | nil => exact h
  | cons task ids ih => exact ih (numbered_cancelTask h task)

theorem numbered_spawn (h : s.Numbered) (role : Role) : (s.spawn role).Numbered where
  fresh task hle := by
    show update s.tasks s.nextTask _ task = none
    rw [update_of_ne (Nat.ne_of_gt hle), h.fresh task (Nat.le_of_succ_le hle)]
  named role' task hattr := by
    change update s.taskAttr role _ role' = some task at hattr
    show ∃ status, update s.tasks s.nextTask _ task = _
    by_cases hrole : role' = role
    · subst hrole
      rw [update_self] at hattr
      obtain rfl := Option.some.inj hattr
      rw [update_self]
      exact ⟨_, rfl⟩
    · rw [update_of_ne hrole] at hattr
      obtain ⟨status, hold⟩ := h.named role' task hattr
      rw [update_of_ne (Nat.ne_of_lt (h.lt hold))]
      exact ⟨status, hold⟩

theorem numbered_ends (h : s.Numbered) {task : ℕ} {role : Role} {status status' : TaskStatus}
    (htask : s.tasks task = some ⟨role, status⟩) :
    Lifecycle.Numbered { s with tasks := update s.tasks task (some ⟨role, status'⟩) } where
  fresh task' hle := by
    show update s.tasks task _ task' = none
    have hlt : task < s.nextTask := h.lt htask
    rw [update_of_ne (by have hle' : s.nextTask ≤ task' := hle; omega), h.fresh task' hle]
  named role' task' hattr := by
    obtain ⟨old, hold⟩ := h.named role' task' hattr
    show ∃ status, update s.tasks task _ task' = _
    by_cases heq : task' = task
    · subst heq
      rw [htask] at hold
      cases hold
      rw [update_self]
      exact ⟨_, rfl⟩
    · rw [update_of_ne heq]
      exact ⟨old, hold⟩

theorem numbered_step (h : s.Numbered) (hstep : s.step e = some t) : t.Numbered := by
  cases takes_of_step hstep with
  | known => exact h
  | confirms => exact ⟨h.fresh, h.named⟩
  | joins => exact ⟨h.fresh, h.named⟩
  | gives => exact ⟨h.fresh, h.named⟩
  | creates call =>
    have hspawned := numbered_spawn (numbered_spawn h .dispatcher) .logConsumer
    exact ⟨hspawned.fresh, hspawned.named⟩
  | nothing => exact numbered_clear h
  | cancels call =>
    have hcancelled := numbered_foldl_cancelTask h s.collected
    exact ⟨hcancelled.fresh, hcancelled.named⟩
  | clears => exact ⟨h.fresh, (numbered_clear h).named⟩
  | ends task role htask => exact numbered_ends h htask

theorem numbered_of_reachable (h : lifecycle.Reachable .init s) : s.Numbered :=
  Machine.Reachable.invariant numbered_init (fun _ _ _ hs hstep => numbered_step hs hstep) h

theorem exists_consuming_of_isRunning (h : s.Numbered) (hrunning : s.isRunning = true) :
    ∃ task, s.Consuming task := by
  rw [isRunning, Option.any_eq_true] at hrunning
  obtain ⟨task, hattr, hstatus⟩ := hrunning
  obtain ⟨status, htask⟩ := h.named .dispatcher task hattr
  rw [htask] at hstatus
  exact ⟨task, _, htask, rfl, by simpa using hstatus⟩

/-- One more dispatcher beside one that is consuming. -/
theorem not_single_creates (h : s.Numbered) {task : ℕ} (htask : s.Consuming task) :
    ¬ Single (((s.spawn .dispatcher).spawn .logConsumer).setCall call .idle) := by
  intro hsingle
  obtain ⟨old, hold, -⟩ := id htask
  have hlt : task < s.nextTask := h.lt hold
  have heq := hsingle task s.nextTask (consuming_creates.mpr (.inr ⟨by omega, htask⟩))
    (consuming_creates.mpr (.inl rfl))
  omega

/-- After a step that is not orderly there are two dispatchers at once, or one that `stop`
has forgotten, beside which the next `start` creates another. -/
theorem exists_not_single (h : s.Numbered) (hdisorderly : ¬ Orderly s e)
    (hstep : s.step e = some t) : ∃ u, lifecycle.Reachable t u ∧ ¬ Single u := by
  cases takes_of_step hstep with
  | known => exact absurd trivial hdisorderly
  | confirms => exact absurd trivial hdisorderly
  | nothing => exact absurd trivial hdisorderly
  | cancels => exact absurd trivial hdisorderly
  | gives => exact absurd trivial hdisorderly
  | ends => exact absurd trivial hdisorderly
  | joins call task rest hcall hmore =>
    refine absurd (fun hlast => ?_) hdisorderly
    obtain ⟨last, hlast⟩ := hlast
    rw [hcall] at hlast
    cases hlast
    exact absurd rfl hmore
  | creates call =>
    have hrunning : s.isRunning = true := by simpa [Orderly] using hdisorderly
    obtain ⟨task, htask⟩ := exists_consuming_of_isRunning h hrunning
    exact ⟨_, .refl, not_single_creates h htask⟩
  | clears call task hcall =>
    have hrunning : s.isRunning = true := by
      by_contra hidle
      exact hdisorderly fun _ => by simpa using hidle
    obtain ⟨left, hleft⟩ := exists_consuming_of_isRunning h hrunning
    let cleared := s.clear.setCall call .idle
    have hcleared : cleared.Numbered := ⟨h.fresh, (numbered_clear h).named⟩
    have hstart : lifecycle.step cleared (.start call) =
        some (cleared.setCall call .confirming) := by
      show cleared.step (.start call) = _
      have hcall : cleared.calls call = .idle := update_self _ _ _
      rw [step, hcall]
      rfl
    have hanswered : lifecycle.step (cleared.setCall call .confirming) (.answered call) = some
        ((((cleared.setCall call .confirming).spawn .dispatcher).spawn .logConsumer).setCall
          call .idle) := by
      show (cleared.setCall call .confirming).step (.answered call) = _
      have hcall : (cleared.setCall call .confirming).calls call = .confirming := update_self _ _ _
      rw [step, hcall]
    exact ⟨_, .tail (.tail .refl trivial hstart) trivial hanswered,
      not_single_creates ⟨hcleared.fresh, hcleared.named⟩ hleft⟩

/-- In a run of orderly steps one dispatcher at most is consuming. No other step is harmless:
two dispatchers consume at once right after it, or some calls later. -/
theorem single_of_orderly (s : Lifecycle) :
    (lifecycle.Reaches Orderly .init s → Single s) ∧
      (lifecycle.Reachable .init s → ∀ e t, ¬ Orderly s e → lifecycle.step s e = some t →
        ∃ u, lifecycle.Reachable t u ∧ ¬ Single u) :=
  ⟨fun h => (named_of_reaches h).single, fun h _ _ hdisorderly hstep =>
    exists_not_single (numbered_of_reachable h) hdisorderly hstep⟩

end Disorderly

instance (phase : CallPhase) : Decidable (∃ task, phase = .joining [task]) :=
  match phase with
  | .joining [task] => isTrue ⟨task, rfl⟩
  | .joining [] => isFalse fun ⟨_, h⟩ => List.cons_ne_nil _ _ (CallPhase.joining.inj h).symm
  | .joining (_ :: _ :: _) => isFalse fun ⟨_, h⟩ =>
      List.cons_ne_nil _ _ (List.cons.inj (CallPhase.joining.inj h)).2
  | .idle => isFalse fun ⟨_, h⟩ => CallPhase.noConfusion h
  | .confirming => isFalse fun ⟨_, h⟩ => CallPhase.noConfusion h

instance (s : Lifecycle) (e : LifecycleEvent) : Decidable (Orderly s e) := by
  unfold Orderly
  split <;> infer_instance

/-- A start that finds the observer started, a stop beside it, and another start when the stop
is over. -/
def restartedRun : List LifecycleEvent :=
  [.start 0, .answered 0, .start 1, .stop 0, .ended 0, .joined 0, .ended 1, .joined 0,
   .start 1, .answered 1]

theorem single_restartedRun :
    ∃ s, s.tasks 2 = some ⟨.dispatcher, .running⟩ ∧ Single s := by
  have hends : (lifecycle.runWith Orderly .init restartedRun).any
      (fun s => decide (s.tasks 2 = some ⟨.dispatcher, .running⟩)) = true := by decide
  obtain ⟨s, hreach, htest⟩ := Machine.exists_reaches_of_runWith _ hends
  exact ⟨s, of_decide_eq_true htest, (single_of_orderly s).1 hreach⟩

/-- A second start begins while the first one awaits its answer. -/
def overlappingStarts : List LifecycleEvent := [.start 0, .start 1, .answered 0, .answered 1]

/-- Both create a dispatcher. -/
theorem not_single_overlappingStarts : ¬ ∀ s, lifecycle.Reachable .init s → Single s := by
  intro hsingle
  have htwo : (lifecycle.run .init overlappingStarts).any (fun s =>
      s.tasks 0 = some ⟨.dispatcher, .running⟩ ∧ s.tasks 2 = some ⟨.dispatcher, .running⟩) =
        true := by decide
  obtain ⟨s, hs, htasks⟩ := Machine.exists_reachable_of_run overlappingStarts htwo
  obtain ⟨hfirst, hsecond⟩ := of_decide_eq_true htasks
  have heq := hsingle s hs 0 2 ⟨_, hfirst, rfl, TaskStatus.noConfusion⟩
    ⟨_, hsecond, rfl, TaskStatus.noConfusion⟩
  cases heq

end Broadcasts
