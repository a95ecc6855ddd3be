import PpssppDfx.Observer.Dispatcher
import PpssppDfx.Semantics.Machine

/-!
# Fan-out of stepping broadcasts

Every subscription has a buffer of its own, and step confirmations are read from one more
queue. The machine numbers the stepping broadcasts in the order of their dispatch and keeps
who took which; the server sees no numbers.

A broadcast that a full buffer dropped does not come back when the subscriber reads on, so a
buffer may hold less than the newest broadcasts that were not read.

## Main results

* `fansOut_of_reachable` — a buffer holds those of the newest broadcasts since the
  subscription that its subscriber has not read
-/

set_option autoImplicit false

namespace Broadcasts

open Semantics Function

/-- A numbered broadcast. -/
abbrev Numbered (μ : Type*) := ℕ × μ

/-- The observer, every stepping broadcast that it dispatched, and what each reader took. -/
structure Fanout (μ : Type*) where
  observer : Observer (Numbered μ)
  dispatched : List (Numbered μ)
  /-- How many had been dispatched when a subscription began. -/
  since : ℕ → ℕ
  consumed : ℕ → List (Numbered μ)
  confirmed : List (Numbered μ)

/-- What the dispatcher, the subscribers and the readers of the queues can do next. -/
inductive FanoutEvent (μ : Type*) where
  | dispatch (name : Option EventName) (msg : μ)
  | subscribe
  | close (i : ℕ)
  | get (i : ℕ)
  | drain (i : ℕ)
  | take (name : EventName)
  | drainResume

variable {μ : Type*}

/-- Nothing has been dispatched and nobody has subscribed. -/
def Fanout.init (μ : Type*) : Fanout μ where
  observer := Broadcasts.init (Numbered μ)
  dispatched := []
  since := fun _ => 0
  consumed := fun _ => []
  confirmed := []

/-- One step. A `get` that waits or times out changes nothing. -/
def Fanout.step (s : Fanout μ) : FanoutEvent μ → Option (Fanout μ)
  | .dispatch name msg =>
    -- all broadcasts are numbered, but only stepping ones count
    let numbered := (s.dispatched.length, msg)
    some { s with
      observer := s.observer.dispatch name numbered
      dispatched :=
        if name = some .cpuStepping then s.dispatched ++ [numbered] else s.dispatched }
  | .subscribe =>
    some { s with
      observer := s.observer.subscribeStepping
      since := update s.since s.observer.nextSubscription s.dispatched.length }
  | .close i => some { s with observer := s.observer.close i }
  | .get i =>
    (s.observer.get i).map fun r =>
      { s with observer := r.2, consumed := update s.consumed i (s.consumed i ++ [r.1]) }
  | .drain i =>
    some { s with
      observer := s.observer.drain i
      consumed := update s.consumed i
        (s.consumed i ++ ((s.observer.subscriptions i).map Subscription.queue).getD []) }
  | .take name =>
    (s.observer.take name).map fun r =>
      { s with
        observer := r.2
        confirmed := if name = .cpuStepping then s.confirmed ++ [r.1] else s.confirmed }
  | .drainResume => some { s with observer := s.observer.drainResume }

/-- One observer with its dispatcher and all its readers. -/
def fanout (μ : Type*) : Machine (Fanout μ) (FanoutEvent μ) := ⟨Fanout.step⟩

/-! ## One broadcast -/

namespace Observer

variable (o : Observer μ)

/-- Changing each subscription of a list once. -/
theorem foldl_modifySubscription (f : Subscription μ → Subscription μ) {l : List ℕ}
    (hl : l.Nodup) :
    l.foldl (fun o i => o.modifySubscription i f) o =
      { o with subscriptions := fun i =>
          if i ∈ l then (o.subscriptions i).map f else o.subscriptions i } := by
  induction l generalizing o with
  | nil => simp
  | cons j rest ih =>
    -- the head is not among the rest, so its own change is not made twice
    obtain ⟨hj, hrest⟩ := List.nodup_cons.mp hl
    rw [List.foldl_cons, ih _ hrest]
    simp only [modifySubscription, Observer.mk.injEq, true_and, and_true]
    funext i
    by_cases hij : i = j
    · subst hij
      simp [hj]
    · simp [hij]

/-- A stepping broadcast goes to the confirmation queue and to every subscription that is
fed. -/
theorem dispatch_cpuStepping (msg : μ) (hnodup : o.steppingSubscribers.Nodup) :
    o.dispatch (some .cpuStepping) msg =
      { o with
        queues := update o.queues .cpuStepping
          (pushDropOldest eventQueueMax (o.queues .cpuStepping) msg)
        subscriptions := fun i =>
          if i ∈ o.steppingSubscribers then (o.subscriptions i).map (.offer msg)
          else o.subscriptions i } := by
  rw [dispatch, offerAll]
  exact foldl_modifySubscription (o.put .cpuStepping msg) (.offer msg) hnodup

/-- Any other broadcast reaches neither a subscription nor the confirmation queue. -/
theorem dispatch_of_ne {name : Option EventName} (msg : μ) (hname : name ≠ some .cpuStepping) :
    (o.dispatch name msg).queues .cpuStepping = o.queues .cpuStepping ∧
      (o.dispatch name msg).steppingSubscribers = o.steppingSubscribers ∧
      (o.dispatch name msg).subscriptions = o.subscriptions ∧
      (o.dispatch name msg).nextSubscription = o.nextSubscription := by
  cases name with
  | none => exact ⟨rfl, rfl, rfl, rfl⟩
  | some name =>
    refine ⟨?_, ?_⟩
    · rw [dispatch_queues, update_of_ne (fun heq => hname (congrArg some heq).symm)]
    · cases name with
      | cpuStepping => exact absurd rfl hname
      | gameStart | gameQuit | gamePause | gameResume | log | cpuResume | gpuStatsGet =>
        simp [dispatch, put]

end Observer

/-! ## What the buffers hold -/

section Fanout

variable [DecidableEq μ]

/-- Every open subscription holds those of the newest 32 broadcasts since it began that its
subscriber has not read, and the confirmation queue those of the newest 64 that nobody has. -/
def FansOut (s : Fanout μ) : Prop :=
  (∀ i sub, s.observer.subscriptions i = some sub → sub.closed = false →
    sub.queue = unread subscriptionMax (s.dispatched.drop (s.since i)) (s.consumed i)) ∧
  s.observer.queues .cpuStepping = unread eventQueueMax s.dispatched s.confirmed

end Fanout

/-- Each open subscription is a cursor into what was dispatched, and so is the confirmation
queue. The subscriptions that are fed are the open ones. -/
structure Fed (s : Fanout μ) : Prop where
  numbered : s.dispatched.map Prod.fst = List.range s.dispatched.length
  nodup : s.observer.steppingSubscribers.Nodup
  mem_iff : ∀ i, i ∈ s.observer.steppingSubscribers ↔
    ∃ sub, s.observer.subscriptions i = some sub ∧ sub.closed = false
  unused : ∀ i, s.observer.nextSubscription ≤ i →
    s.observer.subscriptions i = none ∧ s.consumed i = []
  cursor : ∀ i sub, s.observer.subscriptions i = some sub → sub.closed = false →
    ∃ k, Cursor subscriptionMax (s.since i) s.dispatched (s.consumed i) sub.queue k
  confirmation : ∃ k, Cursor eventQueueMax 0 s.dispatched s.confirmed
    (s.observer.queues .cpuStepping) k

variable {s t : Fanout μ} {i : ℕ}

theorem Fed.init : Fed (Fanout.init μ) where
  numbered := rfl
  nodup := List.nodup_nil
  mem_iff := fun i => by simp [Fanout.init, Broadcasts.init]
  unused := fun i _ => ⟨rfl, rfl⟩
  cursor := fun i sub hsub _ => by cases hsub
  confirmation := ⟨0, @Cursor.init (Numbered μ) eventQueueMax []⟩

/-- What an open subscription held before a stepping broadcast was offered. -/
theorem Fed.offered (h : Fed s) {msg : Numbered μ} {sub' : Subscription (Numbered μ)}
    (hsub : (if i ∈ s.observer.steppingSubscribers
      then (s.observer.subscriptions i).map (.offer msg)
      else s.observer.subscriptions i) = some sub') (hopen : sub'.closed = false) :
    ∃ sub, s.observer.subscriptions i = some sub ∧ sub.closed = false ∧
      sub'.queue = pushDropOldest subscriptionMax sub.queue msg := by
  split at hsub
  · rename_i hi
    obtain ⟨sub, hold, hsubopen⟩ := (h.mem_iff i).mp hi
    rw [hold, Option.map_some, Option.some.injEq, Subscription.offer, hsubopen] at hsub
    subst hsub
    exact ⟨sub, hold, hsubopen, rfl⟩
  · rename_i hi
    exact absurd ((h.mem_iff i).mpr ⟨sub', hsub, hopen⟩) hi

theorem Fed.dispatch_cpuStepping (h : Fed s) (msg : μ) :
    Fed { s with
      observer := s.observer.dispatch (some .cpuStepping) (s.dispatched.length, msg)
      dispatched := s.dispatched ++ [(s.dispatched.length, msg)] } := by
  rw [Observer.dispatch_cpuStepping _ _ h.nodup]
  refine ⟨?_, h.nodup, fun i => ⟨fun hi => ?_, fun ⟨sub', hsub', hopen⟩ => ?_⟩, fun i hi => ?_,
    fun i sub' hsub' hopen => ?_, ?_⟩
  · rw [List.map_append, h.numbered, List.length_append, List.length_singleton, List.range_succ]
    rfl
  · obtain ⟨sub, hsub, hopen⟩ := (h.mem_iff i).mp hi
    refine ⟨sub.offer (s.dispatched.length, msg), ?_, ?_⟩
    · simp only [if_pos hi, hsub, Option.map_some]
    · simp [Subscription.offer, hopen]
  · obtain ⟨sub, hsub, hsubopen, -⟩ := h.offered hsub' hopen
    exact (h.mem_iff i).mpr ⟨sub, hsub, hsubopen⟩
  · obtain ⟨hnone, hconsumed⟩ := h.unused i hi
    exact ⟨by simp [hnone], hconsumed⟩
  · obtain ⟨sub, hsub, hsubopen, hqueue⟩ := h.offered hsub' hopen
    obtain ⟨k, hk⟩ := h.cursor i sub hsub hsubopen
    rw [hqueue]
    exact hk.push (by decide) _
  · obtain ⟨k, hk⟩ := h.confirmation
    simp only [update_self]
    exact hk.push (by decide) _

/-- A step that leaves the stepping broadcasts and what is fed with them alone. -/
theorem Fed.of_same (h : Fed s)
    (hqueue : t.observer.queues .cpuStepping = s.observer.queues .cpuStepping)
    (hfed : t.observer.steppingSubscribers = s.observer.steppingSubscribers)
    (hsubs : t.observer.subscriptions = s.observer.subscriptions)
    (hnext : t.observer.nextSubscription = s.observer.nextSubscription)
    (hdispatched : t.dispatched = s.dispatched) (hsince : t.since = s.since)
    (hconsumed : t.consumed = s.consumed) (hconfirmed : t.confirmed = s.confirmed) : Fed t := by
  obtain ⟨hnumbered, hnodup, hmem, hunused, hcursor, hconfirmation⟩ := h
  constructor <;> simp only [hqueue, hfed, hsubs, hnext, hdispatched, hsince, hconsumed, hconfirmed]
    <;> assumption

theorem Fed.dispatch_of_ne (h : Fed s) {name : Option EventName} (msg : Numbered μ)
    (hname : name ≠ some .cpuStepping) :
    Fed { s with observer := s.observer.dispatch name msg } := by
  obtain ⟨hqueue, hfed, hsubs, hnext⟩ := s.observer.dispatch_of_ne msg hname
  exact h.of_same hqueue hfed hsubs hnext rfl rfl rfl rfl

/-! ## Subscribers -/

/-- The handle of a new subscription was not in use. -/
theorem Fed.not_mem_fresh (h : Fed s) :
    s.observer.nextSubscription ∉ s.observer.steppingSubscribers := by
  intro hmem
  obtain ⟨sub, hsub, -⟩ := (h.mem_iff _).mp hmem
  rw [(h.unused _ (Nat.le_refl _)).1] at hsub
  cases hsub

theorem Fed.subscribe (h : Fed s) :
    Fed { s with
      observer := s.observer.subscribeStepping
      since := update s.since s.observer.nextSubscription s.dispatched.length } := by
  refine ⟨h.numbered, ?_, fun i => ?_, fun i hi => ?_, fun i sub hsub hopen => ?_,
    h.confirmation⟩
  · exact h.nodup.append (List.nodup_singleton _)
      (List.disjoint_singleton.mpr h.not_mem_fresh)
  · by_cases hi : i = s.observer.nextSubscription
    · subst hi
      simp [Observer.subscribeStepping]
    · simp [Observer.subscribeStepping, hi, h.mem_iff i]
  · have hlt : s.observer.nextSubscription < i := hi
    simpa [Observer.subscribeStepping, hlt.ne'] using h.unused i hlt.le
  · by_cases hi : i = s.observer.nextSubscription
    · subst hi
      -- the new subscription begins behind what was dispatched
      obtain rfl : sub = ⟨[], false⟩ := by
        simpa [Observer.subscribeStepping] using hsub.symm
      refine ⟨s.dispatched.length, ?_⟩
      simp only [update_self, (h.unused _ (Nat.le_refl _)).2]
      exact Cursor.init
    · have hsub' : s.observer.subscriptions i = some sub := by
        simpa [Observer.subscribeStepping, hi] using hsub
      simpa [hi] using h.cursor i sub hsub' hopen

/-- A subscription that is closed is no longer open, and no longer fed. -/
theorem Fed.close (h : Fed s) (i : ℕ) : Fed { s with observer := s.observer.close i } := by
  rw [Observer.close]
  split
  · rename_i sub hsub
    split
    · exact h
    · refine ⟨h.numbered, h.nodup.erase i, fun j => ?_, fun j hj => ?_,
        fun j sub' hsub' hopen => ?_, h.confirmation⟩
      · by_cases hij : j = i
        · subst hij
          simp [h.nodup.not_mem_erase]
        · simp [hij, List.mem_erase_of_ne hij, h.mem_iff j]
      · have hij : j ≠ i := by
          rintro rfl
          simp [(h.unused j hj).1] at hsub
        simpa [hij] using h.unused j hj
      · by_cases hij : j = i
        · subst hij
          obtain rfl : { sub with closed := true } = sub' := by simpa using hsub'
          cases hopen
        · exact h.cursor j sub' (by simpa [hij] using hsub') hopen
  · exact h

/-- What one subscriber reads of its own buffer. -/
theorem Fed.read (h : Fed s) {sub : Subscription (Numbered μ)} {items rest : List (Numbered μ)}
    (hsub : s.observer.subscriptions i = some sub)
    (hcursor : ∀ k, Cursor subscriptionMax (s.since i) s.dispatched (s.consumed i) sub.queue k →
      ∃ k', Cursor subscriptionMax (s.since i) s.dispatched (s.consumed i ++ items) rest k') :
    Fed { s with
      observer := { s.observer with
        subscriptions := update s.observer.subscriptions i (some { sub with queue := rest }) }
      consumed := update s.consumed i (s.consumed i ++ items) } := by
  refine ⟨h.numbered, h.nodup, fun j => ?_, fun j hj => ?_, fun j sub' hsub' hopen => ?_,
    h.confirmation⟩
  · by_cases hij : j = i
    · subst hij
      simp [h.mem_iff j, hsub]
    · simp [hij, h.mem_iff j]
  · have hij : j ≠ i := by
      rintro rfl
      simp [(h.unused j hj).1] at hsub
    simpa [hij] using h.unused j hj
  · by_cases hij : j = i
    · subst hij
      obtain rfl : { sub with queue := rest } = sub' := by simpa using hsub'
      obtain ⟨k, hk⟩ := h.cursor j sub hsub hopen
      simpa using hcursor k hk
    · simpa [hij] using h.cursor j sub' (by simpa [hij] using hsub') hopen

theorem Fed.get (h : Fed s) {msg : Numbered μ} {o : Observer (Numbered μ)}
    (hget : s.observer.get i = some (msg, o)) :
    Fed { s with observer := o, consumed := update s.consumed i (s.consumed i ++ [msg]) } := by
  rw [Observer.get] at hget
  split at hget
  · rename_i x rest closed hsub
    obtain ⟨rfl, rfl⟩ := Prod.mk.inj (Option.some.inj hget)
    exact h.read hsub fun k hk => ⟨k + 1, hk.take⟩
  · cases hget

theorem Fed.drain (h : Fed s) (i : ℕ) :
    Fed { s with
      observer := s.observer.drain i
      consumed := update s.consumed i
        (s.consumed i ++ ((s.observer.subscriptions i).map Subscription.queue).getD []) } := by
  cases hsub : s.observer.subscriptions i with
  | none =>
    have hsame : update s.observer.subscriptions i none = s.observer.subscriptions := by
      rw [← hsub, update_eq_self]
    refine h.of_same rfl rfl ?_ rfl rfl rfl ?_ rfl
    · simp only [Observer.drain, Observer.modifySubscription, hsub, Option.map_none, hsame]
    · simp
  | some sub =>
    simp only [Observer.drain, Observer.modifySubscription, hsub, Option.map_some,
      Option.getD_some]
    exact h.read hsub fun k hk => ⟨s.dispatched.length, hk.drain⟩

/-! ## Confirmations -/

/-- Reading another queue changes nothing that is fed with stepping broadcasts. -/
theorem Fed.take (h : Fed s) {name : EventName} {msg : Numbered μ} {o : Observer (Numbered μ)}
    (htake : s.observer.take name = some (msg, o)) :
    Fed { s with
      observer := o
      confirmed := if name = .cpuStepping then s.confirmed ++ [msg] else s.confirmed } := by
  rw [Observer.take] at htake
  split at htake
  · rename_i x rest hqueue
    obtain ⟨rfl, rfl⟩ := Prod.mk.inj (Option.some.inj htake)
    by_cases hname : name = .cpuStepping
    · subst hname
      obtain ⟨k, hk⟩ := h.confirmation
      rw [hqueue] at hk
      refine ⟨h.numbered, h.nodup, h.mem_iff, h.unused, h.cursor, k + 1, ?_⟩
      simpa using hk.take
    · rw [if_neg hname]
      refine h.of_same ?_ rfl rfl rfl rfl rfl rfl rfl
      exact update_of_ne (Ne.symm hname) _ _
  · cases htake

theorem Fed.drainResume (h : Fed s) : Fed { s with observer := s.observer.drainResume } := by
  have hne : EventName.cpuStepping ≠ .cpuResume := by decide
  exact h.of_same (update_of_ne hne [] s.observer.queues) rfl rfl rfl rfl rfl rfl rfl

/-! ## Runs -/

theorem Fed.step (h : Fed s) {event : FanoutEvent μ} (hstep : s.step event = some t) : Fed t := by
  cases event with
  | dispatch name msg =>
    obtain rfl := Option.some.inj hstep
    by_cases hname : name = some .cpuStepping
    · subst hname
      exact h.dispatch_cpuStepping msg
    · simp only [if_neg hname]
      exact h.dispatch_of_ne _ hname
  | subscribe =>
    obtain rfl := Option.some.inj hstep
    exact h.subscribe
  | close i =>
    obtain rfl := Option.some.inj hstep
    exact h.close i
  | get i =>
    obtain ⟨⟨msg, o⟩, hget, rfl⟩ := Option.map_eq_some_iff.mp hstep
    exact h.get hget
  | drain i =>
    obtain rfl := Option.some.inj hstep
    exact h.drain i
  | take name =>
    obtain ⟨⟨msg, o⟩, htake, rfl⟩ := Option.map_eq_some_iff.mp hstep
    exact h.take htake
  | drainResume =>
    obtain rfl := Option.some.inj hstep
    exact h.drainResume

theorem fed_of_reachable (h : (fanout μ).Reachable (Fanout.init μ) s) : Fed s :=
  h.invariant Fed.init fun _ _ _ hfed hstep => hfed.step hstep

/-- No broadcast is dispatched twice. -/
theorem Fed.nodup_dispatched (h : Fed s) : s.dispatched.Nodup :=
  List.Nodup.of_map Prod.fst (h.numbered ▸ List.nodup_range)

section Fanout

variable [DecidableEq μ]

theorem fansOut_of_reachable (h : (fanout μ).Reachable (Fanout.init μ) s) : FansOut s := by
  have hfed := fed_of_reachable h
  refine ⟨fun i sub hsub hopen => ?_, ?_⟩
  · obtain ⟨k, hk⟩ := hfed.cursor i sub hsub hopen
    exact hk.queue_eq hfed.nodup_dispatched
  · obtain ⟨k, hk⟩ := hfed.confirmation
    exact hk.queue_eq hfed.nodup_dispatched

/-- A subscriber that reads one broadcast after 33 of them. -/
def overflow : List (FanoutEvent Unit) :=
  .subscribe :: List.replicate 33 (.dispatch (some .cpuStepping) ()) ++ [.get 0]

/-- Its buffer holds 31 broadcasts, and it has read the second one. -/
theorem fansOut_overflow :
    ∃ s, (fanout Unit).Reachable (Fanout.init Unit) s ∧
      s.consumed 0 = [(1, ())] ∧ FansOut s := by
  have hends : ((fanout Unit).run (Fanout.init Unit) overflow).any
      (fun s => decide (s.consumed 0 = [(1, ())])) = true := by
    decide +kernel
  obtain ⟨s, hreach, htest⟩ := Machine.exists_reachable_of_run _ hends
  exact ⟨s, hreach, of_decide_eq_true htest, fansOut_of_reachable hreach⟩

/-- The broadcasts since a subscription began that its subscriber has not read. -/
def unconsumed (s : Fanout μ) (i : ℕ) : List (Numbered μ) :=
  (s.dispatched.drop (s.since i)).filter fun b => decide (b ∉ s.consumed i)

/-- The first broadcast was not read, and the buffer has room, but it was dropped. -/
theorem not_newest_unconsumed :
    ∃ s, (fanout Unit).Reachable (Fanout.init Unit) s ∧
      ∃ i sub, s.observer.subscriptions i = some sub ∧ sub.closed = false ∧
        sub.queue ≠ (unconsumed s i).rtake subscriptionMax := by
  have hends : ((fanout Unit).run (Fanout.init Unit) overflow).any
      (fun s => (s.observer.subscriptions 0).any fun sub =>
        decide (sub.closed = false ∧ sub.queue ≠ (unconsumed s 0).rtake subscriptionMax)) =
      true := by
    decide +kernel
  obtain ⟨s, hreach, htest⟩ := Machine.exists_reachable_of_run _ hends
  obtain ⟨sub, hsub, hunread⟩ := (Option.any_eq_true _ _).mp htest
  exact ⟨s, hreach, 0, sub, hsub, of_decide_eq_true hunread⟩

end Fanout

end Broadcasts
