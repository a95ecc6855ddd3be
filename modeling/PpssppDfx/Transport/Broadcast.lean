import PpssppDfx.Transport.Model

/-!
# Waiting for a broadcast

`wait_for_broadcast` reads the queue of the frames that no call claims. What it does not wait
for it sets aside, and puts back behind the queue on every way out, while the receive loop
may have queued later frames in between. A broadcast is known by the number of its arrival;
the server sees no numbers.

## Main definitions

* `Transport.waiting` — one wait and the frames that arrive meanwhile
* `Transport.Preserved` — the queue holds what the wait did not return

## Main results

* `preserved_iff` — when a wait preserves the queue
-/

set_option autoImplicit false

namespace Transport

open Python Semantics

/-- A broadcast and the number of its arrival. -/
abbrev Arrival := Dict × ℕ

/-- How a wait ended. -/
inductive WaitResult where
  | returned (msg : Arrival)
  | timedOut
  | cancelled

/-- The wait is between two awaits, awaits the empty queue, or has ended. -/
inductive WaitPhase where
  | running
  | parked
  | ended (result : WaitResult)

/-- One execution of `wait_for_broadcast` and the queue that it reads. -/
structure BroadcastWait where
  queue : List Arrival
  backlog : List Arrival
  phase : WaitPhase
  /-- What was queued when the wait began, and what arrived since. -/
  arrived : List Arrival
  /-- The numbers of the broadcasts that the full queue dropped since the wait began. -/
  dropped : List ℕ

/-- What the receive loop and the wait can do next. -/
inductive WaitEvent where
  /-- The receive loop queues a frame. -/
  | arrives (data : Dict)
  /-- The await of the queue ends with a frame. -/
  | wakes
  /-- The queue yields its oldest frame at once. -/
  | takes
  /-- The queue is empty: the wait suspends. -/
  | parks
  | timesOut
  | cancels

/-- A wait that begins with these frames in the queue. -/
def BroadcastWait.start (queue : List Dict) : BroadcastWait where
  queue := queue.zipIdx
  backlog := []
  phase := .running
  arrived := queue.zipIdx
  dropped := []

/-- `msg.get("event") == event and (filter is None or filter(msg))`. -/
def matchesBroadcast (event : String) (accepts : Option (Dict → Bool)) (data : Dict) : Bool :=
  match data.get? "event" with
  | some (.str name) => name == event && accepts.all fun f => f data
  | _ => false

namespace BroadcastWait

variable (s : BroadcastWait)

/-- `_put_event`. -/
def putEvent (data : Dict) : BroadcastWait :=
  let msg := (data, s.arrived.length)
  { s with
    queue := pushDropOldest eventsQueueMax s.queue msg
    arrived := s.arrived ++ [msg]
    dropped := if s.queue.length < eventsQueueMax then s.dropped
      else s.dropped ++ (s.queue.take 1).map Prod.snd }

/-- The `finally` clause: `_requeue` puts what was set aside behind the queue. -/
def finish (result : WaitResult) : BroadcastWait :=
  { s with
    queue := s.backlog.foldl (pushDropOldest eventsQueueMax) s.queue
    phase := .ended result }

/-- One step. Frames arrive while the wait is suspended; the deadline is checked before each
read of the queue as well. -/
def step (isWanted : Dict → Bool) : WaitEvent → Option BroadcastWait
  | .arrives data =>
    match s.phase with
    | .parked => some (s.putEvent data)
    | _ => none
  | .wakes =>
    match s.phase, s.queue with
    | .parked, _ :: _ => some { s with phase := .running }
    | _, _ => none
  | .takes =>
    match s.phase, s.queue with
    | .running, msg :: rest =>
      -- the `finally` clause also runs when the wait returns
      if isWanted msg.1 then some (finish { s with queue := rest } (.returned msg))
      else some { s with queue := rest, backlog := s.backlog ++ [msg] }
    | _, _ => none
  | .parks =>
    match s.phase, s.queue with
    | .running, [] => some { s with phase := .parked }
    | _, _ => none
  | .timesOut =>
    match s.phase with
    | .ended _ => none
    | _ => some (s.finish .timedOut)
  | .cancels =>
    match s.phase with
    | .parked => some (s.finish .cancelled)
    | _ => none

/-- What a step can do. -/
inductive Moves (isWanted : Dict → Bool) (s : BroadcastWait) : WaitEvent → BroadcastWait → Prop
  | arrives {data : Dict} (hphase : s.phase = .parked) : Moves isWanted s (.arrives data)
      (s.putEvent data)
  | wakes (hphase : s.phase = .parked) : Moves isWanted s .wakes { s with phase := .running }
  | returns {msg : Arrival} {rest : List Arrival} (hphase : s.phase = .running)
      (hqueue : s.queue = msg :: rest) :
      Moves isWanted s .takes (finish { s with queue := rest } (.returned msg))
  | setsAside {msg : Arrival} {rest : List Arrival} (hphase : s.phase = .running)
      (hqueue : s.queue = msg :: rest) :
      Moves isWanted s .takes { s with queue := rest, backlog := s.backlog ++ [msg] }
  | parks (hphase : s.phase = .running) : Moves isWanted s .parks { s with phase := .parked }
  | timesOut (hopen : ∀ result, s.phase ≠ .ended result) :
      Moves isWanted s .timesOut (s.finish .timedOut)
  | cancels (hphase : s.phase = .parked) : Moves isWanted s .cancels (s.finish .cancelled)

variable {s}

theorem moves_of_step {isWanted : Dict → Bool} {e : WaitEvent} {t : BroadcastWait}
    (hstep : s.step isWanted e = some t) : s.Moves isWanted e t := by
  cases e with
  | arrives data =>
    simp only [step] at hstep
    split at hstep
    · obtain rfl := Option.some.inj hstep
      exact .arrives ‹_›
    · cases hstep
  | wakes =>
    simp only [step] at hstep
    split at hstep
    · obtain rfl := Option.some.inj hstep
      exact .wakes ‹_›
    · cases hstep
  | takes =>
    simp only [step] at hstep
    split at hstep
    · split at hstep
      · obtain rfl := Option.some.inj hstep
        exact .returns ‹_› ‹_›
      · obtain rfl := Option.some.inj hstep
        exact .setsAside ‹_› ‹_›
    · cases hstep
  | parks =>
    simp only [step] at hstep
    split at hstep
    · obtain rfl := Option.some.inj hstep
      exact .parks ‹_›
    · cases hstep
  | timesOut =>
    simp only [step] at hstep
    split at hstep
    · cases hstep
    next hopen =>
      obtain rfl := Option.some.inj hstep
      exact .timesOut hopen
  | cancels =>
    simp only [step] at hstep
    split at hstep
    · obtain rfl := Option.some.inj hstep
      exact .cancels ‹_›
    · cases hstep

end BroadcastWait

/-- A wait for the broadcasts of one event that a filter accepts. -/
def waiting (event : String) (accepts : Option (Dict → Bool)) :
    Machine BroadcastWait WaitEvent :=
  ⟨fun s e => s.step (matchesBroadcast event accepts) e⟩

/-! ## What a wait leaves -/

/-- The broadcasts that arrived, without the one that the wait returned. -/
def unconsumed (arrived : List Arrival) : WaitResult → List Arrival
  | .returned msg => arrived.filter fun b => b.2 != msg.2
  | _ => arrived

/-- The queue holds the newest broadcasts that were not consumed, in the order of arrival. -/
def Preserved (s : BroadcastWait) : Prop :=
  ∀ result, s.phase = .ended result →
    s.queue = (unconsumed s.arrived result).rtake eventsQueueMax

/-- What is left in the queue when the wait ends with this step. -/
def BroadcastWait.left (s : BroadcastWait) : WaitEvent → List Arrival
  | .takes => s.queue.tail
  | _ => s.queue

/-- The broadcasts that arrived, without the one that this step takes. -/
def BroadcastWait.untaken (s : BroadcastWait) : WaitEvent → List Arrival
  | .takes => s.arrived.filter fun b => s.queue.head?.all fun msg => b.2 != msg.2
  | _ => s.arrived

/-- When the wait ends with this step, nothing was set aside or nothing is queued, and what
the full queue dropped is not among the newest broadcasts. -/
def Undisturbed (s : BroadcastWait) (e : WaitEvent) : Prop :=
  (s.backlog = [] ∨ s.left e = []) ∧
    ∀ b ∈ (s.untaken e).rtake eventsQueueMax, b.2 ∉ s.dropped

/-- Every broadcast that arrived is queued, set aside or dropped. -/
structure Accounted (s : BroadcastWait) : Prop where
  numbered : s.arrived.map Prod.snd = List.range s.arrived.length
  bounded : s.queue.length ≤ eventsQueueMax
  passed : ∃ passed, s.arrived = passed ++ s.queue ∧
    s.backlog = passed.filter (fun b => decide (b.2 ∉ s.dropped)) ∧
    ∀ n ∈ s.dropped, n ∈ passed.map Prod.snd

variable {s t : BroadcastWait} {event : String} {accepts : Option (Dict → Bool)}

theorem accounted_start {queue : List Dict} (hqueue : queue.length ≤ eventsQueueMax) :
    Accounted (.start queue) where
  numbered := by
    simp only [BroadcastWait.start, List.zipIdx_map_snd, List.length_zipIdx,
      List.range_eq_range']
  bounded := by simpa [BroadcastWait.start] using hqueue
  passed := ⟨[], rfl, rfl, fun _ hn => by cases hn⟩

/-- The numbers of the broadcasts that arrived are distinct. -/
theorem Accounted.nodup_numbers (h : Accounted s) : (s.arrived.map Prod.snd).Nodup :=
  h.numbered ▸ List.nodup_range

theorem Accounted.nodup (h : Accounted s) : s.arrived.Nodup :=
  h.nodup_numbers.of_map Prod.snd

/-- A broadcast that passed has another number than one that is queued. -/
theorem Accounted.number_ne (h : Accounted s) {passed : List Arrival}
    (hpassed : s.arrived = passed ++ s.queue) {a b : Arrival} (ha : a ∈ passed)
    (hb : b ∈ s.queue) : a.2 ≠ b.2 := by
  have hnodup := h.nodup_numbers
  rw [hpassed, List.map_append] at hnodup
  intro heq
  exact List.disjoint_of_nodup_append hnodup (List.mem_map_of_mem ha)
    (heq ▸ List.mem_map_of_mem hb)

/-- A broadcast that is queued was not dropped. -/
theorem Accounted.not_dropped (h : Accounted s) {b : Arrival} (hb : b ∈ s.queue) :
    b.2 ∉ s.dropped := by
  obtain ⟨passed, hpassed, -, hdropped⟩ := h.passed
  intro hmem
  obtain ⟨a, ha, hnumber⟩ := List.mem_map.mp (hdropped _ hmem)
  exact h.number_ne hpassed ha hb hnumber

theorem Accounted.putEvent (h : Accounted s) (data : Dict) : Accounted (s.putEvent data) := by
  obtain ⟨passed, hpassed, hbacklog, hdropped⟩ := h.passed
  refine ⟨?_, length_pushDropOldest_le (by decide) h.bounded, ?_⟩
  · simp only [BroadcastWait.putEvent, List.map_append, h.numbered, List.length_append,
      List.length_singleton, List.range_succ, List.map_cons, List.map_nil]
  · simp only [BroadcastWait.putEvent, pushDropOldest]
    split
    · refine ⟨passed, ?_, hbacklog, hdropped⟩
      rw [hpassed, List.append_assoc]
    · -- The oldest broadcast in the queue passes without being set aside.
      cases hqueue : s.queue with
      | nil =>
        rename_i hfull
        rw [hqueue] at hfull
        exact absurd (by decide) hfull
      | cons oldest rest =>
        have hmem : oldest ∈ s.queue := by simp [hqueue]
        refine ⟨passed ++ [oldest], by simp [hpassed, hqueue], ?_, fun n hn => ?_⟩
        · rw [hbacklog, List.filter_append]
          have hout : [oldest].filter (fun b => decide (b.2 ∉ s.dropped ++ [oldest.2])) = [] := by
            simp
          rw [show (List.take 1 (oldest :: rest)).map Prod.snd = [oldest.2] from rfl, hout,
            List.append_nil]
          refine List.filter_congr fun b hb => ?_
          simp [h.number_ne hpassed hb hmem]
        · rcases List.mem_append.mp hn with hn | hn
          · rw [List.map_append]
            exact List.mem_append_left _ (hdropped n hn)
          · rw [List.map_append]
            exact List.mem_append_right _ hn

/-- What is set aside passes without being dropped. -/
theorem Accounted.setAside (h : Accounted s) {msg : Arrival} {rest : List Arrival}
    (hqueue : s.queue = msg :: rest) :
    Accounted { s with queue := rest, backlog := s.backlog ++ [msg] } := by
  obtain ⟨passed, hpassed, hbacklog, hdropped⟩ := h.passed
  have hbounded := h.bounded
  have hmem : msg.2 ∉ s.dropped := h.not_dropped (by simp [hqueue])
  rw [hqueue] at hpassed hbounded
  refine ⟨h.numbered, Nat.le_of_succ_le hbounded, passed ++ [msg], by simp [hpassed], ?_,
    fun n hn => ?_⟩
  · rw [List.filter_append, ← hbacklog]
    simp [hmem]
  · rw [List.map_append]
    exact List.mem_append_left _ (hdropped n hn)

theorem Accounted.step {isWanted : Dict → Bool} {e : WaitEvent} (h : Accounted s)
    (hstep : s.step isWanted e = some t) (hopen : ∀ result, t.phase ≠ .ended result) :
    Accounted t := by
  have hsame : ∀ phase, Accounted { s with phase := phase } := fun _ =>
    ⟨h.numbered, h.bounded, h.passed⟩
  cases BroadcastWait.moves_of_step hstep with
  | arrives _ => exact h.putEvent _
  | wakes _ => exact hsame _
  | returns _ _ => exact absurd rfl (hopen _)
  | setsAside _ hqueue => exact h.setAside hqueue
  | parks _ => exact hsame _
  | timesOut _ => exact absurd rfl (hopen _)
  | cancels _ => exact absurd rfl (hopen _)

/-- A wait that has ended takes no step. -/
theorem not_ended_of_step {isWanted : Dict → Bool} {e : WaitEvent}
    (hstep : s.step isWanted e = some t) (result : WaitResult) : s.phase ≠ .ended result := by
  intro hended
  cases BroadcastWait.moves_of_step hstep <;> simp_all

theorem accounted_of_reachable {queue : List Dict} (hqueue : queue.length ≤ eventsQueueMax)
    (h : (waiting event accepts).Reachable (.start queue) s)
    (hopen : ∀ result, s.phase ≠ .ended result) : Accounted s := by
  -- the last step may break the account, so it is kept for waits that are open
  have hall : (∀ result, s.phase ≠ .ended result) → Accounted s :=
    Machine.Reachable.invariant (P := fun s => (∀ result, s.phase ≠ .ended result) → Accounted s)
      (fun _ => accounted_start hqueue)
      (fun _ _ _ hold hstep hopen => (hold (not_ended_of_step hstep)).step hstep hopen) h
  exact hall hopen

/-! ## The end of a wait -/

/-- Putting back what was set aside behind what is left of the queue. -/
theorem Accounted.requeue_eq_iff (h : Accounted s) {passed taken left : List Arrival}
    (hpassed : s.arrived = passed ++ s.queue) (hqueue : s.queue = taken ++ left)
    (hbacklog : s.backlog = passed.filter fun b => decide (b.2 ∉ s.dropped)) :
    s.backlog.foldl (pushDropOldest eventsQueueMax) left =
        (passed ++ left).rtake eventsQueueMax ↔
      (s.backlog = [] ∨ left = []) ∧
        ∀ b ∈ (passed ++ left).rtake eventsQueueMax, b.2 ∉ s.dropped := by
  have hcap : 0 < eventsQueueMax := by decide
  have hfits : left.length ≤ eventsQueueMax := by
    have hbounded := h.bounded
    rw [hqueue, List.length_append] at hbounded
    omega
  have hsub : (passed ++ left).Sublist s.arrived := by
    rw [hpassed, hqueue]
    exact (List.Sublist.refl _).append (List.sublist_append_right _ _)
  have hkeep : ∀ b ∈ left, decide (b.2 ∉ s.dropped) = true := fun b hb =>
    decide_eq_true (h.not_dropped (hqueue ▸ List.mem_append_right _ hb))
  rw [foldl_pushDropOldest hcap hfits, hbacklog,
    putBack_eq_iff hcap hfits (h.nodup.sublist hsub) hkeep]
  simp only [decide_eq_true_eq]

/-- The broadcasts that passed, when one that is queued is left out. -/
theorem Accounted.filter_number_ne (h : Accounted s) {passed rest : List Arrival} {msg : Arrival}
    (hpassed : s.arrived = passed ++ s.queue) (hqueue : s.queue = msg :: rest) :
    s.arrived.filter (fun b => b.2 != msg.2) = passed ++ rest := by
  have hnodup := h.nodup_numbers
  rw [hpassed, hqueue, List.map_append, List.map_cons] at hnodup
  have hrest : msg.2 ∉ rest.map Prod.snd :=
    (List.nodup_cons.mp (List.Nodup.of_append_right hnodup)).1
  rw [hpassed, List.filter_append]
  congr 1
  · refine List.filter_eq_self.mpr fun b hb => ?_
    rw [bne_iff_ne]
    exact h.number_ne hpassed hb (by simp [hqueue])
  · rw [hqueue, List.filter_cons_of_neg (by simp)]
    refine List.filter_eq_self.mpr fun b hb => ?_
    rw [bne_iff_ne]
    intro heq
    exact hrest (heq ▸ List.mem_map_of_mem hb)

/-- A step that takes some broadcasts of the queue and ends the wait. -/
theorem Accounted.preserved_finish (h : Accounted s) {result : WaitResult} {e : WaitEvent}
    {taken left : List Arrival} (hqueue : s.queue = taken ++ left) (hleft : s.left e = left)
    (huntaken : s.untaken e = unconsumed s.arrived result)
    (hrest : ∀ passed, s.arrived = passed ++ s.queue →
      unconsumed s.arrived result = passed ++ left) :
    Preserved (BroadcastWait.finish { s with queue := left } result) ↔ Undisturbed s e := by
  -- what passed was set aside or dropped, so the question is where it is put back
  obtain ⟨passed, hpassed, hbacklog, -⟩ := h.passed
  have hexpected := hrest passed hpassed
  rw [Undisturbed, hleft, huntaken, hexpected, ← h.requeue_eq_iff hpassed hqueue hbacklog]
  constructor
  · intro hpreserved
    rw [← hexpected]
    exact hpreserved result rfl
  · rintro heq _ ⟨⟩
    rw [← hexpected] at heq
    exact heq

/-- A wait preserves the queue exactly where it puts nothing back behind later broadcasts and
the full queue dropped none of the newest. -/
theorem preserved_iff {queue : List Dict} {e : WaitEvent} {result : WaitResult}
    (hqueue : queue.length ≤ eventsQueueMax)
    (hreach : (waiting event accepts).Reachable (.start queue) s)
    (hstep : (waiting event accepts).step s e = some t) (hend : t.phase = .ended result) :
    Preserved t ↔ Undisturbed s e := by
  have h := accounted_of_reachable hqueue hreach (not_ended_of_step hstep)
  have hnone : ∀ passed, s.arrived = passed ++ s.queue → s.arrived = passed ++ s.queue :=
    fun _ => id
  cases BroadcastWait.moves_of_step hstep with
  | arrives hphase => simp [BroadcastWait.putEvent, hphase] at hend
  | wakes _ => cases hend
  | @returns msg rest _ hqueue =>
    have htaken : s.queue = [msg] ++ rest := hqueue
    refine h.preserved_finish htaken (by rw [BroadcastWait.left, hqueue]; rfl) ?_
      fun passed hpassed => h.filter_number_ne hpassed hqueue
    simp [BroadcastWait.untaken, unconsumed, hqueue]
  | setsAside hphase _ =>
    rw [hphase] at hend
    cases hend
  | parks _ => cases hend
  | timesOut _ =>
    show Preserved (BroadcastWait.finish { s with queue := s.queue } .timedOut) ↔ _
    exact h.preserved_finish (List.nil_append _).symm rfl rfl hnone
  | cancels _ =>
    show Preserved (BroadcastWait.finish { s with queue := s.queue } .cancelled) ↔ _
    exact h.preserved_finish (List.nil_append _).symm rfl rfl hnone

/-! ## Two waits -/

/-- A broadcast frame without further fields. -/
def frame (event : String) : Dict := [(.str "event", .str event)]

/-- A wait that sets a frame aside and finds its broadcast at the end of the queue. -/
theorem preserved_setAside :
    ∃ s t, (waiting "cpu.stepping" none).run (.start [frame "log", frame "cpu.stepping"]) [.takes] =
        some s ∧ (waiting "cpu.stepping" none).step s .takes = some t ∧
      s.backlog = [(frame "log", 0)] ∧ t.queue = [(frame "log", 0)] ∧ Preserved t := by
  have hqueue : [frame "log", frame "cpu.stepping"].length ≤ eventsQueueMax := by decide
  have hrun : (waiting "cpu.stepping" none).run (.start [frame "log", frame "cpu.stepping"])
      [.takes] = some ⟨[(frame "cpu.stepping", 1)], [(frame "log", 0)], .running,
        [(frame "log", 0), (frame "cpu.stepping", 1)], []⟩ := rfl
  have hstep : (waiting "cpu.stepping" none).step ⟨[(frame "cpu.stepping", 1)],
      [(frame "log", 0)], .running, [(frame "log", 0), (frame "cpu.stepping", 1)], []⟩ .takes =
        some ⟨[(frame "log", 0)], [(frame "log", 0)], .ended (.returned (frame "cpu.stepping", 1)),
          [(frame "log", 0), (frame "cpu.stepping", 1)], []⟩ := rfl
  refine ⟨_, _, hrun, hstep, rfl, rfl, ?_⟩
  refine (preserved_iff hqueue (Machine.reachable_of_run _ hrun) hstep rfl).mpr ?_
  exact ⟨Or.inr rfl, fun b _ hb => (nomatch hb)⟩

/-- A wait that finds its broadcast between two others. -/
def between : List Dict := [frame "game.start", frame "cpu.stepping", frame "log"]

/-- Afterwards the two others are queued in the wrong order. -/
theorem not_preserved_between :
    ¬ ∀ (event : String) (accepts : Option (Dict → Bool)) (queue : List Dict) (s : BroadcastWait),
      queue.length ≤ eventsQueueMax →
        (waiting event accepts).Reachable (.start queue) s → Preserved s := by
  intro hall
  have hrun : (waiting "cpu.stepping" none).run (.start between) [.takes, .takes] =
      some ⟨[(frame "log", 2), (frame "game.start", 0)], [(frame "game.start", 0)],
        .ended (.returned (frame "cpu.stepping", 1)), between.zipIdx, []⟩ := rfl
  have hpreserved := hall _ _ _ _ (by decide) (Machine.reachable_of_run _ hrun) _ rfl
  have hnumbers := congrArg (List.map Prod.snd) hpreserved
  exact absurd hnumbers (by decide)

end Transport
