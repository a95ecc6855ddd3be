import PpssppDfx.Diagnostics.Attribution
import PpssppDfx.Transport.Nesting

/-!
# The diagnostics of the transport

The transport reports every ticketed call to its diagnostics: when it registers, how it ends,
and each broadcast that is not the answer to a call. Any number of calls are in flight, a call
that times out issues another one to ask whether the CPU is stepping, and the ring forgets old
records, so a record is right only if all these reports meet.

## Main definitions

* `Diagnostics.report` — what a slice of the transport reports
* `Diagnostics.watched` — the transport with its diagnostics
* `Diagnostics.heardIn` — a frame of the event of a call came unclaimed before the call had ended
* `Diagnostics.SteppingAnswered` — the probe of a call was told that the CPU is stepping

## Main results

* `Diagnostics.told_of_reachable` — what the records say of the calls in every run
* `Diagnostics.timeout_attributed` — the cause that is given for a call is what happened to it
-/

set_option autoImplicit false

namespace Diagnostics

open Python Semantics Transport

/-- What a slice finds: the time, and the text of the exception that it raises, if it does. -/
structure Sample where
  now : ℕ
  error : String

/-- What the probe reads off the reply to `cpu.status`. -/
def steppingOf (data : Dict) : Option Bool :=
  match data.get? "stepping" with
  | none => none
  | some .none => none
  | some value => some value.truthy

/-- The event that a frame is a broadcast of. -/
def frameEvent (data : Dict) : String := ((data.get? "event").getD (.str "")).text

/-- The frame answers a command that was sent by `fire_and_forget()`. -/
def isOwnEcho (s : State) (data : Dict) : Bool :=
  match frameTicket data with
  | some (.str ticket) => ticket != "" && s.ffTickets.contains ticket
  | _ => false

/-- The event of a frame that no call claims and that is not an echo. -/
def broadcastOf (s : State) : Event → Option String
  | .recvFrame _ (some (.dict data)) =>
    match pendingKey s data with
    | some none => if isOwnEcho s data then none else some (frameEvent data)
    | _ => none
  | _ => none

variable (timeout : ℕ → Seconds)

/-- How the record of a call is settled when the call ends. -/
def settleOf (x : Sample) (k : ℕ) : Outcome → Op
  | .returned _ => .settle k false none none x.now
  | .timedOut => .settle k true (some (noResponse (timeout k))) none x.now
  | _ => .settle k false (some x.error) none x.now

/-- What is reported of the parent when the call of its probe ends: its own timeout, with the
answer of the probe. A cancellation passes through the parent and settles nothing. -/
def settleParent (s : State) (x : Sample) (k : ℕ) (outcome : Outcome) : List Op :=
  match (s.calls k).bind Call.parent with
  | none => []
  | some p =>
    match outcome with
    | .cancelled => []
    | .returned data =>
      [.settle p true (some (noResponse (timeout p))) (steppingOf data) x.now]
    | _ => [.settle p true (some (noResponse (timeout p))) none x.now]

/-- A call that ends settles its own record first. -/
def settleBoth (s : State) (x : Sample) (k : ℕ) (outcome : Outcome) : List Op :=
  settleOf timeout x k outcome :: settleParent timeout s x k outcome

/-- The record that a call begins when it registers. -/
def beginOf (s : State) (x : Sample) (k : ℕ) (event : String) : Op :=
  .begin k event (ticketName (s.ticketCounter + 1)) x.now

/-- What a slice reports. -/
def report (s : State) (x : Sample) : Event → List Op
  | .callStart k event => if isConnected s then [beginOf s x k event] else []
  | .reconnected k =>
    match s.calls k with
    | some c =>
      if s.ws.isSome then [beginOf s x k c.event]
      -- without a ticket there is no record
      else settleParent timeout s x k .notConnected
    | none => []
  | .reconnectFailed k cancelled =>
    settleParent timeout s x k (if cancelled then .cancelled else .notConnected)
  | .sendFailed k cancelled =>
    settleBoth timeout s x k (if cancelled then .cancelled else .sendFailed)
  | .wake k child =>
    match s.calls k with
    | none => []
    | some c =>
      match c.interrupt, c.future with
      | some .cancel, _ => settleBoth timeout s x k .cancelled
      | some .timeout, _ =>
        -- the record is settled when the probe is over
        if s.probingStepping then settleBoth timeout s x k .timedOut
        else if isConnected s then [beginOf s x child "cpu.status"] else []
      | none, .result data => settleBoth timeout s x k (.returned data)
      | none, .peerError data => settleBoth timeout s x k (.peerError data)
      | none, .connectionError message => settleBoth timeout s x k (.connectionError message)
      | none, .cancelled => settleBoth timeout s x k .cancelled
      | none, .waiting => []
  | .recvFrame l raw =>
    ((broadcastOf s (.recvFrame l raw)).map fun event => Op.noteBroadcast event x.now).toList
  | _ => []

/-- A transport, its diagnostics, and the slices so far with the states they ran in. -/
structure Watched where
  transport : State
  diagnostics : CallDiagnostics
  past : List (State × Event)

/-- The transport with its diagnostics. The history is there to speak about. -/
def watched : Machine Watched (Event × Sample) where
  step w i := (Transport.machine.step w.transport i.1).map fun t =>
    { transport := t
      diagnostics := w.diagnostics.run (report timeout w.transport i.2 i.1)
      past := w.past ++ [(w.transport, i.1)] }

/-- A new transport. -/
def Watched.init : Watched where
  transport := Transport.init
  diagnostics := ⟨defaultCapacity, by decide, []⟩
  past := []

/-- The call has its ticket and has not ended. -/
def isRegistered : CallPhase → Bool
  | .sending => true
  | .waiting => true
  | .probing => true
  | _ => false

/-- In this slice a frame of the event of call `k` comes that no pending call claims, while the
call has its ticket and has not ended. -/
def hears (s : State) (e : Event) (k : ℕ) : Bool :=
  match broadcastOf s e with
  | none => false
  | some event => (s.calls k).any fun c => isRegistered c.phase && c.event == event

/-- A frame of the event of call `k` that no pending call claimed came while the call was being
sent, was waiting or was probing. Its own reply is one once the deadline has passed. -/
def heardIn (past : List (State × Event)) (k : ℕ) : Bool := past.any fun slice =>
  hears slice.1 slice.2 k

/-- The probe of call `k` was told that the CPU is stepping. -/
def SteppingAnswered (s : State) (k : ℕ) : Prop :=
  ∃ child c data, s.calls child = some c ∧ c.parent = some k ∧
    c.phase = .exited (.returned data) ∧ steppingOf data = some true

/-! ## What a record says of its call -/

variable {timeout} {s : State} {x : Sample} {past : List (State × Event)} {life : Lifecycle}
  {k : ℕ} {v : View} {rec : CallRecord}

/-- The view is that of a probe of call `k` that was told that the CPU is stepping. -/
def tells (k : ℕ) (v : View) : Prop :=
  v.parent = some k ∧ ∃ data, v.phase = .exited (.returned data) ∧ steppingOf data = some true

/-- The probe of call `k` was told that the CPU is stepping. -/
def Answered (life : Lifecycle) (k : ℕ) : Prop := ∃ child v, life.calls child = some v ∧ tells k v

theorem answered_lifecycle : Answered (lifecycle s) k ↔ SteppingAnswered s k := by
  constructor
  · rintro ⟨child, v, hchild, hparent, data, hphase, hstepping⟩
    obtain ⟨c, hc, rfl⟩ := Option.map_eq_some_iff.mp hchild
    exact ⟨child, c, data, hc, hparent, hphase, hstepping⟩
  · rintro ⟨child, c, data, hc, hparent, hphase, hstepping⟩
    exact ⟨child, c.view, Option.map_eq_some_iff.mpr ⟨c, hc, rfl⟩, hparent, data, hphase, hstepping⟩

theorem not_tells_of_not_exited (h : v.phase.isExited = false) : ¬ tells k v := by
  rintro ⟨_, data, hphase, _⟩
  rw [hphase] at h
  exact Bool.noConfusion h

theorem not_tells_of_parent_ne (h : v.parent ≠ some k) : ¬ tells k v := fun ht => h ht.1

theorem isExited_of_isOpen {phase : CallPhase} (h : phase.isOpen = true) :
    phase.isExited = false := by
  cases phase with
  | exited outcome => exact Bool.noConfusion h
  | _ => rfl

/-- A view that says nothing about call `k`, before and after, makes no difference to it. -/
theorem answered_set {i : ℕ} (hold : ∀ u, life.calls i = some u → ¬ tells k u)
    (hnew : ¬ tells k v) : Answered (life.set i v) k ↔ Answered life k := by
  constructor
  · rintro ⟨child, w, hw, htells⟩
    rcases calls_set_cases hw with ⟨_, rfl⟩ | ⟨_, hw⟩
    · exact absurd htells hnew
    · exact ⟨child, w, hw, htells⟩
  · rintro ⟨child, w, hw, htells⟩
    refine ⟨child, w, ?_, htells⟩
    rw [calls_set, if_neg, hw]
    rintro rfl
    exact hold w hw htells

/-- What the record of a call says, by the phase that the call is in. -/
structure Told (past : List (State × Event)) (life : Lifecycle) (k : ℕ) (v : View)
    (rec : CallRecord) : Prop where
  event : rec.event = v.event
  ticket : v.ticket.map ticketName = some rec.ticket
  registered : v.phase ≠ .reconnecting
  inFlight : v.phase.isExited = false → rec.settled = false
  settled : ∀ {outcome}, v.phase = .exited outcome → outcome ≠ .cancelled → rec.settled = true
  unasked : v.phase ≠ .exited .timedOut → rec.timedOut = false ∧ rec.steppingAtTimeout = none
  timedOut : v.phase = .exited .timedOut → rec.timedOut = true ∧
    (∃ seconds, rec.error = some (noResponse seconds)) ∧
      (rec.steppingAtTimeout = some true ↔ Answered life k)
  /-- After a cancellation the record may still be open, and hear more than its call. -/
  heard : v.phase ≠ .exited .cancelled → rec.lastSameEventBroadcastAt.isSome = heardIn past k

/-- What does not concern a call leaves its record right. -/
theorem Told.frame {past' : List (State × Event)} {life' : Lifecycle}
    (h : Told past life k v rec) (hanswered : Answered life' k ↔ Answered life k)
    (hheard : heardIn past' k = heardIn past k) : Told past' life' k v rec where
  event := h.event
  ticket := h.ticket
  registered := h.registered
  inFlight := h.inFlight
  settled := h.settled
  unasked := h.unasked
  timedOut := fun hphase => by
    obtain ⟨htimedOut, herror, hstepping⟩ := h.timedOut hphase
    exact ⟨htimedOut, herror, hstepping.trans hanswered.symm⟩
  heard := fun hphase => (h.heard hphase).trans hheard.symm

/-- A call that goes on without ending. -/
theorem Told.advance {life' : Lifecycle} {phase : CallPhase} (h : Told past life k v rec)
    (hexited : v.phase.isExited = false) (hphase : phase ≠ .reconnecting)
    (hnot : phase.isExited = false) : Told past life' k { v with phase := phase } rec where
  event := h.event
  ticket := h.ticket
  registered := hphase
  inFlight := fun _ => h.inFlight hexited
  settled := fun heq _ => by
    rw [show phase = _ from heq] at hnot
    exact Bool.noConfusion hnot
  unasked := fun _ => h.unasked fun heq => by
    rw [heq] at hexited
    exact Bool.noConfusion hexited
  timedOut := fun heq => by
    rw [show phase = _ from heq] at hnot
    exact Bool.noConfusion hnot
  heard := fun _ => h.heard fun heq => by
    rw [heq] at hexited
    exact Bool.noConfusion hexited

/-- A call that ends, with the record that was settled for it. -/
theorem Told.settle {life' : Lifecycle} {outcome : Outcome} {timedOut : Bool}
    {error : Option String} {stepping : Option Bool} {now : ℕ} (h : Told past life k v rec)
    (hexited : v.phase.isExited = false)
    (hother : outcome ≠ .timedOut → timedOut = false ∧ stepping = none)
    (htimedOut : outcome = .timedOut → timedOut = true ∧
      (∃ seconds, error = some (noResponse seconds)) ∧
        (stepping = some true ↔ Answered life' k)) :
    Told past life' k (v.exit outcome) (rec.settle timedOut error stepping now) where
  event := h.event
  ticket := h.ticket
  registered := CallPhase.noConfusion
  inFlight := Bool.noConfusion
  settled := fun _ _ => rfl
  unasked := fun hphase => hother fun heq => hphase (congrArg CallPhase.exited heq)
  timedOut := fun hphase => htimedOut (CallPhase.exited.inj hphase)
  heard := fun _ => h.heard fun heq => by
    rw [heq] at hexited
    exact Bool.noConfusion hexited

/-- A call that is cancelled while it probes, whose record stays as it is. -/
theorem Told.abandon {life' : Lifecycle} (h : Told past life k v rec)
    (hexited : v.phase.isExited = false) : Told past life' k (v.exit .cancelled) rec where
  event := h.event
  ticket := h.ticket
  registered := CallPhase.noConfusion
  inFlight := Bool.noConfusion
  settled := fun heq hne => absurd (CallPhase.exited.inj heq).symm hne
  unasked := fun _ => h.unasked fun heq => by
    rw [heq] at hexited
    exact Bool.noConfusion hexited
  timedOut := fun heq => Outcome.noConfusion (CallPhase.exited.inj heq)
  heard := fun hne => absurd rfl hne

/-- A call that registers has said nothing yet. -/
theorem told_pending {event ticket : String} {now : ℕ} (hevent : event = v.event)
    (hticket : v.ticket.map ticketName = some ticket) (hphase : v.phase = .sending)
    (hheard : heardIn past k = false) :
    Told past life k v (.pending event ticket now) where
  event := hevent
  ticket := hticket
  registered := fun heq => by rw [hphase] at heq; exact CallPhase.noConfusion heq
  inFlight := fun _ => rfl
  settled := fun heq _ => by rw [hphase] at heq; exact CallPhase.noConfusion heq
  unasked := fun _ => ⟨rfl, rfl⟩
  timedOut := fun heq => by rw [hphase] at heq; exact CallPhase.noConfusion heq
  heard := fun _ => hheard.symm

/-- A broadcast. -/
theorem Told.note {past' : List (State × Event)} {event : String} {now : ℕ}
    (h : Told past life k v rec)
    (hheard : heardIn past' k = (heardIn past k || (isRegistered v.phase && v.event == event))) :
    Told past' life k v (rec.note event now) where
  event := (event_note event).trans h.event
  ticket := h.ticket.trans (congrArg some (ticket_note event).symm)
  registered := h.registered
  inFlight := fun hexited => (settled_note event).trans (h.inFlight hexited)
  settled := fun hphase hne => (settled_note event).trans (h.settled hphase hne)
  unasked := fun hphase => by
    obtain ⟨htimedOut, hstepping⟩ := h.unasked hphase
    unfold CallRecord.note
    split <;> exact ⟨htimedOut, hstepping⟩
  timedOut := fun hphase => by
    obtain ⟨htimedOut, herror, hstepping⟩ := h.timedOut hphase
    unfold CallRecord.note
    split <;> exact ⟨htimedOut, herror, hstepping⟩
  heard := fun hphase => by
    have hsettled : (!rec.settled) = isRegistered v.phase := by
      cases hexit : v.phase with
      | exited outcome =>
        rw [h.settled hexit fun heq => hphase (hexit.trans (congrArg _ heq))]
        rfl
      | reconnecting => exact absurd hexit h.registered
      | _ =>
        rw [h.inFlight (by rw [hexit]; rfl)]
        rfl
    rw [hheard, ← h.heard hphase, ← hsettled, ← h.event]
    unfold CallRecord.note
    split
    · rename_i hnote
      rw [hnote, Bool.or_true]
      rfl
    · rename_i hnote
      rw [Bool.eq_false_iff.mpr hnote, Bool.or_false]

/-! ## Slices -/

/-- A settlement of the call's own record. -/
theorem Told.settleOf {life' : Lifecycle} {outcome : Outcome} (h : Told past life k v rec)
    (hexited : v.phase.isExited = false) (hnot : ¬ Answered life' k) :
    Told past life' k (v.exit outcome) ((settleOf timeout x k outcome).track k rec) := by
  cases outcome with
  | timedOut =>
    simp only [Diagnostics.settleOf, track_settle, if_pos]
    refine h.settle hexited (fun hne => absurd rfl hne) fun _ => ⟨rfl, ⟨timeout k, rfl⟩, ?_⟩
    exact iff_of_false (Option.some_ne_none true).symm hnot
  | _ =>
    simp only [Diagnostics.settleOf, track_settle, if_pos]
    exact h.settle hexited (fun _ => ⟨rfl, rfl⟩) Outcome.noConfusion

/-- A settlement of the record of the call that probed. -/
theorem Told.settleParent {life' : Lifecycle} {outcome : Outcome} {i : ℕ}
    (h : Told past life k v rec) (hexited : v.phase.isExited = false)
    (hparent : (s.calls i).bind Call.parent = some k)
    (hanswered : Answered life' k ↔
      ∃ data, outcome = .returned data ∧ steppingOf data = some true) :
    Told past life' k (v.exit outcome.raised)
      (trackAll k (settleParent timeout s x i outcome) rec) := by
  simp only [Diagnostics.settleParent, hparent]
  cases outcome with
  | cancelled => exact h.abandon hexited
  | returned data =>
    simp only [trackAll, List.foldl_cons, List.foldl_nil, track_settle, if_pos]
    refine h.settle hexited (fun hne => absurd rfl hne) fun _ => ⟨rfl, ⟨timeout k, rfl⟩, ?_⟩
    rw [hanswered]
    constructor
    · exact fun hstepping => ⟨data, rfl, hstepping⟩
    · rintro ⟨_, heq, hstepping⟩
      obtain rfl := Outcome.returned.inj heq
      exact hstepping
  | _ =>
    simp only [trackAll, List.foldl_cons, List.foldl_nil, track_settle, if_pos]
    refine h.settle hexited (fun hne => absurd rfl hne) fun _ => ⟨rfl, ⟨timeout k, rfl⟩, ?_⟩
    rw [hanswered]
    refine iff_of_false (Option.some_ne_none true).symm ?_
    rintro ⟨_, heq, _⟩
    exact Outcome.noConfusion heq

theorem track_settleOf_of_ne {i : ℕ} {outcome : Outcome} (h : i ≠ k) :
    (settleOf timeout x k outcome).track i rec = rec := by
  cases outcome <;> exact if_neg h

theorem trackAll_settleParent_of_ne {i : ℕ} {outcome : Outcome}
    (h : (s.calls k).bind Call.parent ≠ some i) :
    trackAll i (settleParent timeout s x k outcome) rec = rec := by
  unfold settleParent
  cases hparent : (s.calls k).bind Call.parent with
  | none => rfl
  | some p =>
    have hne : i ≠ p := fun heq => h (hparent.trans (congrArg some heq.symm))
    cases outcome with
    | cancelled => rfl
    | _ => exact if_neg hne

/-- An operation that begins nothing. -/
def Op.isUpdate : Op → Bool
  | .begin _ _ _ _ => false
  | _ => true

theorem mem_apply_update {d : CallDiagnostics} {op : Op} (hop : op.isUpdate = true)
    (h : (k, rec) ∈ (d.apply op).records) :
    ∃ before, (k, before) ∈ d.records ∧ rec = op.track k before := by
  cases op with
  | begin i event ticket now => exact Bool.noConfusion hop
  | _ =>
    obtain ⟨⟨i, before⟩, hmem, heq⟩ := List.mem_map.mp h
    obtain ⟨rfl, rfl⟩ := Prod.mk.inj heq
    exact ⟨before, hmem, rfl⟩

theorem mem_run_updates {d : CallDiagnostics} {ops : List Op}
    (hops : ∀ op ∈ ops, op.isUpdate = true) (h : (k, rec) ∈ (d.run ops).records) :
    ∃ before, (k, before) ∈ d.records ∧ rec = trackAll k ops before := by
  induction ops generalizing d with
  | nil => exact ⟨rec, h, rfl⟩
  | cons op rest ih =>
    obtain ⟨middle, hmiddle, hrec⟩ := ih (fun op hop => hops op (List.mem_cons_of_mem _ hop)) h
    obtain ⟨before, hbefore, rfl⟩ := mem_apply_update (hops op List.mem_cons_self) hmiddle
    exact ⟨before, hbefore, hrec⟩

theorem mem_apply_begin {d : CallDiagnostics} {i : ℕ} {event ticket : String} {now : ℕ}
    (h : (k, rec) ∈ (d.apply (.begin i event ticket now)).records) :
    (k, rec) ∈ d.records ∨ (k = i ∧ rec = .pending event ticket now) := by
  rcases mem_pushDropOldest h with hmem | heq
  · exact Or.inl hmem
  · exact Or.inr (Prod.mk.inj heq)

/-- The records are right, and no call is heard of before it registers. -/
structure Truthful (past : List (State × Event)) (life : Lifecycle) (d : CallDiagnostics) :
    Prop where
  told : ∀ {k rec}, (k, rec) ∈ d.records → ∃ v, life.calls k = some v ∧ Told past life k v rec
  registered : ∀ {k}, heardIn past k = true →
    ∃ v, life.calls k = some v ∧ v.phase ≠ .reconnecting

section Slices

variable {past' : List (State × Event)} {d : CallDiagnostics}

/-- The next slice brings no broadcast. -/
def Silent (past past' : List (State × Event)) : Prop := ∀ k, heardIn past' k = heardIn past k

theorem Truthful.quiet (h : Truthful past life d) (hpast : Silent past past') :
    Truthful past' life d where
  told := fun hmem => by
    obtain ⟨v, hv, htold⟩ := h.told hmem
    exact ⟨v, hv, htold.frame Iff.rfl (hpast _)⟩
  registered := fun hheard => h.registered ((hpast _).symm.trans hheard)

/-- A call that starts or registers. It had no record before. -/
theorem Truthful.create (h : Truthful past life d) (hpast : Silent past past')
    (hold : ∀ u, life.calls k = some u → u.phase = .reconnecting)
    (hopen : v.phase.isOpen = true) {ops : List Op}
    (hops : ops = [] ∨ v.phase = .sending ∧ ∃ ticket now,
      ops = [.begin k v.event ticket now] ∧ v.ticket.map ticketName = some ticket) :
    Truthful past' (life.set k v) (d.run ops) := by
  have hkeep {i : ℕ} {rec : CallRecord} (hmem : (i, rec) ∈ d.records) :
      ∃ w, (life.set k v).calls i = some w ∧ Told past' (life.set k v) i w rec := by
    obtain ⟨w, hw, htold⟩ := h.told hmem
    have hne : i ≠ k := by
      rintro rfl
      exact htold.registered (hold w hw)
    refine ⟨w, by rw [calls_set, if_neg hne, hw], htold.frame (answered_set ?_ ?_) (hpast _)⟩
    · intro u hu
      apply not_tells_of_not_exited
      rw [hold u hu]
      rfl
    · exact not_tells_of_not_exited (isExited_of_isOpen hopen)
  have hquiet : heardIn past' k = false := by
    by_contra hheard
    obtain ⟨u, hu, hne⟩ := h.registered ((hpast k).symm.trans (Bool.not_eq_false _ ▸ hheard))
    exact hne (hold u hu)
  constructor
  · intro i rec hmem
    rcases hops with rfl | ⟨hphase, ticket, now, rfl, hticket⟩
    · exact hkeep hmem
    · rcases mem_apply_begin hmem with hmem | ⟨rfl, rfl⟩
      · exact hkeep hmem
      · exact ⟨v, by rw [calls_set, if_pos rfl], told_pending rfl hticket hphase hquiet⟩
  · intro i hheard
    have hne : i ≠ k := by
      rintro rfl
      rw [hquiet] at hheard
      exact Bool.noConfusion hheard
    obtain ⟨w, hw, hphase⟩ := h.registered ((hpast i).symm.trans hheard)
    exact ⟨w, by rw [calls_set, if_neg hne, hw], hphase⟩

/-- A call that goes on without ending. -/
theorem Truthful.advance (h : Truthful past life d) (hpast : Silent past past')
    (hk : life.calls k = some v) (hexited : v.phase.isExited = false) {phase : CallPhase}
    (hphase : phase ≠ .reconnecting) (hnot : phase.isExited = false) :
    Truthful past' (life.set k { v with phase := phase }) d := by
  have hsame (j : ℕ) : Answered (life.set k { v with phase := phase }) j ↔ Answered life j :=
    answered_set (fun u hu => by
      obtain rfl : v = u := Option.some.inj (hk.symm.trans hu)
      exact not_tells_of_not_exited hexited) (not_tells_of_not_exited hnot)
  constructor
  · intro i rec hmem
    obtain ⟨w, hw, htold⟩ := h.told hmem
    by_cases hik : i = k
    · subst hik
      obtain rfl : v = w := Option.some.inj (hk.symm.trans hw)
      exact ⟨_, by rw [calls_set, if_pos rfl],
        (htold.frame Iff.rfl (hpast i)).advance hexited hphase hnot⟩
    · exact ⟨w, by rw [calls_set, if_neg hik, hw], htold.frame (hsame i) (hpast i)⟩
  · intro i hheard
    obtain ⟨w, hw, hne⟩ := h.registered ((hpast i).symm.trans hheard)
    by_cases hik : i = k
    · subst hik
      exact ⟨_, by rw [calls_set, if_pos rfl], hphase⟩
    · exact ⟨w, by rw [calls_set, if_neg hik, hw], hne⟩

/-- A broadcast is noted in the records of the calls that are in flight. -/
theorem Truthful.note (h : Truthful past life d) {event : String} {now : ℕ}
    (hheard : ∀ k, heardIn past' k = (heardIn past k ||
      (life.calls k).any fun v => isRegistered v.phase && v.event == event)) :
    Truthful past' life (d.apply (.noteBroadcast event now)) := by
  constructor
  · intro k rec hmem
    obtain ⟨before, hbefore, rfl⟩ := mem_apply_update rfl hmem
    obtain ⟨v, hv, htold⟩ := h.told hbefore
    refine ⟨v, hv, htold.note ?_⟩
    rw [hheard, hv]
    rfl
  · intro k hk
    rw [hheard, Bool.or_eq_true] at hk
    rcases hk with hk | hk
    · exact h.registered hk
    · obtain ⟨v, hv, hany⟩ := (Option.any_eq_true _ _).mp hk
      refine ⟨v, hv, fun hphase => ?_⟩
      rw [hphase] at hany
      exact Bool.noConfusion hany

/-- A call that is open has no probe. -/
theorem not_answered_of_isOpen (hnest : Nest life) (hk : life.calls k = some v)
    (hopen : v.phase.isOpen = true) : ¬ Answered life k := by
  rintro ⟨child, w, hw, hparent, _⟩
  exact hnest.parent_ne hk hopen hw hparent rfl

/-- A call without a parent ends. -/
theorem Truthful.leavePlain (h : Truthful past life d) (hnest : Nest life)
    (hpast : Silent past past') {outcome : Outcome} (hk : life.calls k = some v)
    (hopen : v.phase.isOpen = true) (hplain : v.parent = none) {ops : List Op}
    (hops : ops = [settleOf timeout x k outcome] ∨ v.phase = .reconnecting ∧ ops = []) :
    Truthful past' (life.set k (v.exit outcome)) (d.run ops) := by
  have hexited := isExited_of_isOpen hopen
  have hsame (j : ℕ) : Answered (life.set k (v.exit outcome)) j ↔ Answered life j :=
    answered_set (fun u hu => by
      obtain rfl : v = u := Option.some.inj (hk.symm.trans hu)
      exact not_tells_of_not_exited hexited)
      (not_tells_of_parent_ne (hplain ▸ (Option.some_ne_none j).symm))
  constructor
  · intro i rec hmem
    have hupdates : ∀ op ∈ ops, op.isUpdate = true := by
      rcases hops with rfl | ⟨_, rfl⟩
      · rintro op hop
        obtain rfl := List.mem_singleton.mp hop
        cases outcome <;> rfl
      · exact fun op hop => absurd hop List.not_mem_nil
    obtain ⟨before, hbefore, rfl⟩ := mem_run_updates hupdates hmem
    obtain ⟨w, hw, htold⟩ := h.told hbefore
    by_cases hik : i = k
    · subst hik
      obtain rfl : v = w := Option.some.inj (hk.symm.trans hw)
      refine ⟨_, by rw [calls_set, if_pos rfl], ?_⟩
      rcases hops with rfl | ⟨hphase, _⟩
      · refine (htold.frame (Iff.refl (Answered life i)) (hpast i)).settleOf hexited ?_
        exact fun hans => not_answered_of_isOpen hnest hk hopen ((hsame i).mp hans)
      · exact absurd hphase htold.registered
    · refine ⟨w, by rw [calls_set, if_neg hik, hw], ?_⟩
      have hrec : trackAll i ops before = before := by
        rcases hops with rfl | ⟨_, rfl⟩
        · exact track_settleOf_of_ne hik
        · rfl
      rw [hrec]
      exact htold.frame (hsame i) (hpast i)
  · intro i hheard
    obtain ⟨w, hw, hne⟩ := h.registered ((hpast i).symm.trans hheard)
    by_cases hik : i = k
    · subst hik
      exact ⟨_, by rw [calls_set, if_pos rfl], CallPhase.noConfusion⟩
    · exact ⟨w, by rw [calls_set, if_neg hik, hw], hne⟩

/-- The call of a probe ends, and the call that probed with it. -/
theorem Truthful.leaveNested (h : Truthful past life d) (hnest : Nest life)
    (hpast : Silent past past') {outcome : Outcome} {p : ℕ} (hk : life.calls k = some v)
    (hopen : v.phase.isOpen = true) (hparent : v.parent = some p)
    (hbind : (s.calls k).bind Call.parent = some p) {ops : List Op}
    (hops : ops = settleBoth timeout s x k outcome ∨
      v.phase = .reconnecting ∧ ops = settleParent timeout s x k outcome) :
    Truthful past' ((Move.leave k outcome).apply life) (d.run ops) := by
  obtain ⟨u, hu, huparent, huphase⟩ := hnest.parent hk hparent
  rw [if_pos hopen] at huphase
  have hpk : p ≠ k := hnest.parent_ne hk hopen hk hparent
  have hexited := isExited_of_isOpen hopen
  have huexited : u.phase.isExited = false := by rw [huphase]; rfl
  set after := (Move.leave k outcome).apply life with hafter
  have hcalls (i : ℕ) : after.calls i = if i = p then some (u.exit outcome.raised)
      else if i = k then some (v.exit outcome) else life.calls i := by
    have happly : after = (({ life with probing := false }).modify k (·.exit outcome)).modify p
        (·.exit outcome.raised) := by
      rw [hafter]
      simp only [Move.apply, hk, Option.bind_some, hparent]
    rw [happly, calls_modify, calls_modify, calls_modify, if_neg hpk, hu, hk]
    rfl
  -- the call of the probe is the only one that speaks to its parent
  have hanswered : Answered after p ↔
      ∃ data, outcome = .returned data ∧ steppingOf data = some true := by
    constructor
    · rintro ⟨child, w, hw, hwparent, data, hwphase, hstepping⟩
      rw [hcalls] at hw
      split at hw
      · obtain rfl := Option.some.inj hw
        exact absurd (huparent.symm.trans hwparent) (Option.some_ne_none p).symm
      · split at hw
        · obtain rfl := Option.some.inj hw
          exact ⟨data, CallPhase.exited.inj hwphase, hstepping⟩
        · exact absurd (hnest.only hw hk hwparent hparent) ‹_›
    · rintro ⟨data, rfl, hstepping⟩
      exact ⟨k, v.exit (.returned data), by rw [hcalls, if_neg (Ne.symm hpk), if_pos rfl], hparent,
        data, rfl, hstepping⟩
  have hsame {j : ℕ} (hj : j ≠ p) : Answered after j ↔ Answered life j := by
    constructor
    · rintro ⟨child, w, hw, htells⟩
      rw [hcalls] at hw
      split at hw
      · obtain rfl := Option.some.inj hw
        exact absurd (huparent.symm.trans htells.1) (Option.some_ne_none j).symm
      · split at hw
        · obtain rfl := Option.some.inj hw
          exact absurd (Option.some.inj (hparent.symm.trans htells.1)).symm hj
        · exact ⟨child, w, hw, htells⟩
    · rintro ⟨child, w, hw, htells⟩
      refine ⟨child, w, ?_, htells⟩
      rw [hcalls, if_neg, if_neg, hw]
      · rintro rfl
        obtain rfl : v = w := Option.some.inj (hk.symm.trans hw)
        exact not_tells_of_not_exited hexited htells
      · rintro rfl
        obtain rfl : u = w := Option.some.inj (hu.symm.trans hw)
        exact not_tells_of_not_exited huexited htells
  have hupdates : ∀ op ∈ ops, op.isUpdate = true := by
    have hsettle : ∀ op ∈ settleParent timeout s x k outcome, op.isUpdate = true := by
      unfold settleParent
      rw [hbind]
      cases outcome <;> simp [Op.isUpdate]
    rcases hops with rfl | ⟨_, rfl⟩
    · rintro op hop
      rcases List.mem_cons.mp hop with rfl | hop
      · cases outcome <;> rfl
      · exact hsettle op hop
    · exact hsettle
  constructor
  · intro i rec hmem
    obtain ⟨before, hbefore, rfl⟩ := mem_run_updates hupdates hmem
    obtain ⟨w, hw, htold⟩ := h.told hbefore
    have htold' := htold.frame (Iff.refl (Answered life i)) (hpast i)
    by_cases hip : i = p
    · subst hip
      obtain rfl : u = w := Option.some.inj (hu.symm.trans hw)
      refine ⟨_, by rw [hcalls, if_pos rfl], ?_⟩
      have hrec : trackAll i ops before =
          trackAll i (settleParent timeout s x k outcome) before := by
        rcases hops with rfl | ⟨_, rfl⟩
        · exact congrArg (trackAll i (settleParent timeout s x k outcome))
            (track_settleOf_of_ne hpk)
        · rfl
      rw [hrec]
      exact htold'.settleParent huexited hbind hanswered
    · by_cases hik : i = k
      · subst hik
        obtain rfl : v = w := Option.some.inj (hk.symm.trans hw)
        refine ⟨_, by rw [hcalls, if_neg hip, if_pos rfl], ?_⟩
        rcases hops with rfl | ⟨hphase, _⟩
        · have hne : (s.calls i).bind Call.parent ≠ some i := fun heq =>
            hip (Option.some.inj (heq.symm.trans hbind))
          have hrec : trackAll i (settleBoth timeout s x i outcome) before =
              (settleOf timeout x i outcome).track i before := trackAll_settleParent_of_ne hne
          rw [hrec]
          refine htold'.settleOf hexited ?_
          exact fun hans => not_answered_of_isOpen hnest hk hopen ((hsame hip).mp hans)
        · exact absurd hphase htold.registered
      · refine ⟨w, by rw [hcalls, if_neg hip, if_neg hik, hw], ?_⟩
        have hne : (s.calls k).bind Call.parent ≠ some i := fun heq =>
          hip (Option.some.inj (heq.symm.trans hbind))
        have hrec : trackAll i ops before = before := by
          rcases hops with rfl | ⟨_, rfl⟩
          · exact (congrArg (trackAll i (settleParent timeout s x k outcome))
              (track_settleOf_of_ne hik)).trans (trackAll_settleParent_of_ne hne)
          · exact trackAll_settleParent_of_ne hne
        rw [hrec]
        exact htold.frame (hsame hip) (hpast i)
  · intro i hheard
    obtain ⟨w, hw, hne⟩ := h.registered ((hpast i).symm.trans hheard)
    by_cases hip : i = p
    · exact ⟨_, by rw [hcalls, if_pos hip], CallPhase.noConfusion⟩
    · by_cases hik : i = k
      · exact ⟨_, by rw [hcalls, if_neg hip, if_pos hik], CallPhase.noConfusion⟩
      · exact ⟨w, by rw [hcalls, if_neg hip, if_neg hik, hw], hne⟩

/-- A call ends. -/
theorem Truthful.leave (h : Truthful past (lifecycle s) d) (hnest : Nest (lifecycle s))
    (hpast : Silent past past') {outcome : Outcome} (hk : (lifecycle s).calls k = some v)
    (hopen : v.phase.isOpen = true) {ops : List Op}
    (hops : ops = settleBoth timeout s x k outcome ∨
      v.phase = .reconnecting ∧ ops = settleParent timeout s x k outcome) :
    Truthful past' ((Move.leave k outcome).apply (lifecycle s)) (d.run ops) := by
  have hbind : (s.calls k).bind Call.parent = v.parent := by
    obtain ⟨c, hc, rfl⟩ := Option.map_eq_some_iff.mp hk
    rw [hc]
    rfl
  cases hparent : v.parent with
  | none =>
    have hnone : settleParent timeout s x k outcome = [] := by
      rw [settleParent, hbind, hparent]
    rw [settleBoth, hnone] at hops
    have happly : (Move.leave k outcome).apply (lifecycle s) =
        (lifecycle s).set k (v.exit outcome) := by
      simp only [Move.apply, hk, Option.bind_some, hparent]
      exact modify_eq_set hk
    rw [happly]
    exact h.leavePlain hnest hpast hk hopen hparent hops
  | some p => exact h.leaveNested hnest hpast hk hopen hparent (hbind.trans hparent) hops

theorem Truthful.latch (h : Truthful past life d) (probing : Bool) :
    Truthful past { life with probing := probing } d where
  told := fun hmem => by
    obtain ⟨v, hv, htold⟩ := h.told hmem
    exact ⟨v, hv, htold.frame Iff.rfl rfl⟩
  registered := h.registered

/-- A call turns to its probe. -/
theorem Truthful.probe (h : Truthful past life d) (hpast : Silent past past') {child : ℕ}
    (hk : life.calls k = some v) (hphase : v.phase = .waiting)
    (hchild : life.calls child = none) {ticket : Option ℕ} {ops : List Op}
    (hops : ops = [] ∨ ∃ n now, ticket = some n ∧
      ops = [.begin child "cpu.status" (ticketName n) now]) :
    Truthful past' ((Move.probe k child ticket).apply life) (d.run ops) := by
  have hne : child ≠ k := by
    rintro rfl
    rw [hk] at hchild
    exact Option.some_ne_none v hchild
  have hexited : v.phase.isExited = false := by rw [hphase]; rfl
  have hprobing : Truthful past'
      (({ life with probing := true }).set k { v with phase := .probing }) d :=
    (h.latch true).advance hpast hk hexited CallPhase.noConfusion rfl
  have hmodify : ({ life with probing := true } : Lifecycle).modify k
      (fun v => { v with phase := .probing }) =
        ({ life with probing := true } : Lifecycle).set k { v with phase := .probing } :=
    modify_eq_set hk
  rw [Move.apply, hmodify]
  refine hprobing.create (fun _ => rfl) ?_ (by cases ticket <;> rfl) ?_
  · intro u hu
    rw [calls_set, if_neg hne] at hu
    exact absurd (hu.symm.trans hchild) (Option.some_ne_none u)
  · rcases hops with rfl | ⟨n, now, rfl, rfl⟩
    · exact Or.inl rfl
    · exact Or.inr ⟨rfl, ticketName n, now, rfl, rfl⟩

end Slices

/-! ## Runs -/

theorem heardIn_concat (e : Event) :
    heardIn (past ++ [(s, e)]) k = (heardIn past k || hears s e k) := by
  simp [heardIn]

theorem silent_of_broadcastOf {e : Event} (h : broadcastOf s e = none) :
    Silent past (past ++ [(s, e)]) := by
  intro k
  rw [heardIn_concat, hears, h, Bool.or_false]

/-- A slice reports what it does. -/
theorem Truthful.slice {d : CallDiagnostics} {e : Event} (h : Truthful past (lifecycle s) d)
    (hnest : Nest (lifecycle s)) (he : enabled s e = true) (x : Sample) :
    Truthful (past ++ [(s, e)]) (lifecycle (apply s e)) (d.run (report timeout s x e)) := by
  have hallowed := move_allowed he
  have hview {k : ℕ} {c : Call} (hc : s.calls k = some c) :
      (lifecycle s).calls k = some c.view := by simp [lifecycle, hc]
  rw [lifecycle_apply]
  cases e with
  | callStart k event =>
    have hsilent : Silent past (past ++ [(s, .callStart k event)]) := silent_of_broadcastOf rfl
    have hfree : (lifecycle s).calls k = none := by
      simpa [enabled, lifecycle] using he
    have hold : ∀ u, (lifecycle s).calls k = some u → u.phase = .reconnecting := fun u hu =>
      absurd (hu.symm.trans hfree) (Option.some_ne_none u)
    simp only [move, report]
    split
    · exact h.create hsilent hold rfl (Or.inr ⟨rfl, _, _, rfl, rfl⟩)
    · exact h.create hsilent hold rfl (Or.inl rfl)
  | reconnected k =>
    have hsilent : Silent past (past ++ [(s, .reconnected k)]) := silent_of_broadcastOf rfl
    obtain ⟨c, hc, hphase⟩ := (Option.any_eq_true _ _).mp he
    have hphase : c.view.phase = .reconnecting := phase_of_isReconnecting hphase
    simp only [move, report, hc]
    split
    · refine h.create hsilent (fun u hu => ?_) rfl (Or.inr ⟨rfl, _, _, rfl, rfl⟩)
      obtain rfl : c.view = u := Option.some.inj ((hview hc).symm.trans hu)
      exact hphase
    · exact h.leave hnest hsilent (hview hc) (by rw [hphase]; rfl) (Or.inr ⟨hphase, rfl⟩)
  | reconnectFailed k cancelled =>
    obtain ⟨c, hc, hphase⟩ := (Option.any_eq_true _ _).mp he
    have hphase : c.view.phase = .reconnecting := phase_of_isReconnecting hphase
    exact h.leave hnest (silent_of_broadcastOf rfl) (hview hc) (by rw [hphase]; rfl)
      (Or.inr ⟨hphase, rfl⟩)
  | sent k =>
    obtain ⟨c, hc, hphase⟩ := (Option.any_eq_true _ _).mp he
    have hphase : c.view.phase = .sending := phase_of_isSending hphase
    rw [move, Move.apply, modify_eq_set (hview hc)]
    exact h.advance (silent_of_broadcastOf rfl) (hview hc) (by rw [hphase]; rfl)
      CallPhase.noConfusion rfl
  | sendFailed k cancelled =>
    obtain ⟨c, hc, hphase⟩ := (Option.any_eq_true _ _).mp he
    have hphase : c.view.phase = .sending := phase_of_isSending hphase
    exact h.leave hnest (silent_of_broadcastOf rfl) (hview hc) (by rw [hphase]; rfl) (Or.inl rfl)
  | wake k child =>
    have hsilent : Silent past (past ++ [(s, .wake k child)]) := silent_of_broadcastOf rfl
    simp only [enabled, Bool.and_eq_true, Option.isNone_iff_eq_none] at he
    obtain ⟨hwake, hchild⟩ := he
    obtain ⟨c, hc, hready⟩ := (Option.any_eq_true _ _).mp hwake
    have hphase : c.view.phase = .waiting :=
      phase_of_isWaiting (Bool.and_eq_true_iff.mp hready).1
    have hleave (outcome : Outcome) : Truthful (past ++ [(s, .wake k child)])
        ((Move.leave k outcome).apply (lifecycle s))
        (d.run (settleBoth timeout s x k outcome)) :=
      h.leave hnest hsilent (hview hc) (by rw [hphase]; rfl) (Or.inl rfl)
    have hfree : (lifecycle s).calls child = none := by simp [lifecycle, hchild]
    simp only [move, report, hc]
    cases hinterrupt : c.interrupt with
    | some interrupt =>
      cases interrupt with
      | timeout =>
        simp only [nextTicket]
        split
        · exact hleave .timedOut
        · split
          · exact h.probe hsilent (hview hc) hphase hfree (Or.inr ⟨_, _, rfl, rfl⟩)
          · exact h.probe hsilent (hview hc) hphase hfree (Or.inl rfl)
      | cancel => exact hleave .cancelled
    | none =>
      cases hfuture : c.future with
      | waiting => exact h.quiet hsilent
      | result data => exact hleave (.returned data)
      | peerError data => exact hleave (.peerError data)
      | connectionError message => exact hleave (.connectionError message)
      | cancelled => exact hleave .cancelled
  | recvFrame l raw =>
    simp only [move, report, Move.apply]
    cases hevent : broadcastOf s (.recvFrame l raw) with
    | none => exact h.quiet (silent_of_broadcastOf hevent)
    | some event =>
      refine h.note fun k => ?_
      rw [heardIn_concat, hears, hevent]
      cases hc : s.calls k <;> simp [lifecycle, hc, Call.view]
  | _ => exact h.quiet (silent_of_broadcastOf rfl)

theorem transport_of_watched {w : Watched} (h : (watched timeout).Reachable .init w) :
    Transport.machine.Reachable Transport.init w.transport := by
  induction h with
  | refl => exact .refl
  | tail _ _ hstep ih =>
    obtain ⟨t, ht, rfl⟩ := Option.map_eq_some_iff.mp hstep
    exact .tail ih trivial ht

/-- The records say of the calls what happened to them, in every run. -/
theorem told_of_reachable {w : Watched} (h : (watched timeout).Reachable .init w) :
    Truthful w.past (lifecycle w.transport) w.diagnostics := by
  induction h with
  | refl =>
    constructor
    · exact fun hmem => absurd hmem List.not_mem_nil
    · exact fun hheard => Bool.noConfusion hheard
  | tail hreach _ hstep ih =>
    obtain ⟨t, ht, rfl⟩ := Option.map_eq_some_iff.mp hstep
    obtain ⟨he, rfl⟩ := machine_step_eq_some_iff.mp ht
    exact ih.slice (nest_of_reachable (transport_of_watched hreach)) he _

/-- The cause that is given for the call of a record. -/
structure Attributed (w : Watched) (k : ℕ) (c : Call) (rec : CallRecord) : Prop where
  stalled : c.phase = .exited .timedOut → SteppingAnswered w.transport k →
    attributeTimeout (some rec) = .expectedStall
  unpaired : c.phase = .exited .timedOut → ¬ SteppingAnswered w.transport k →
    heardIn w.past k = true → attributeTimeout (some rec) = .pairingBroken
  silent : c.phase = .exited .timedOut → ¬ SteppingAnswered w.transport k →
    heardIn w.past k = false → attributeTimeout (some rec) = .noProducer
  /-- A call that did not time out has no cause. -/
  other : c.phase ≠ .exited .timedOut → attributeTimeout (some rec) = .unknown

/-- Whatever the order of calls, replies, broadcasts, timeouts and probes: each record in the ring
is the record of a call, and the cause given for that call is right. The CPU was stepping exactly
if the probe was told so; else the pairing is blamed exactly if a frame of the event that no
pending call claimed came while the call had its ticket and had not ended; and the transport is
never blamed. -/
theorem timeout_attributed {w : Watched} (h : (watched timeout).Reachable .init w) {k : ℕ}
    {rec : CallRecord} (hmem : (k, rec) ∈ w.diagnostics.records) :
    ∃ c n, w.transport.calls k = some c ∧ c.ticket = some n ∧ rec.event = c.event ∧
      rec.ticket = ticketName n ∧ Attributed w k c rec := by
  obtain ⟨v, hv, htold⟩ := (told_of_reachable h).told hmem
  obtain ⟨c, hc, rfl⟩ := Option.map_eq_some_iff.mp hv
  obtain ⟨n, hn, hname⟩ := Option.map_eq_some_iff.mp htold.ticket
  have hcause (hphase : c.phase = .exited .timedOut) : attributeTimeout (some rec) =
      if rec.steppingAtTimeout = some true then .expectedStall
      else if heardIn w.past k then .pairingBroken else .noProducer := by
    obtain ⟨htimedOut, ⟨seconds, herror⟩, _⟩ := htold.timedOut hphase
    have hne : c.view.phase ≠ .exited .cancelled := fun heq =>
      Outcome.noConfusion (CallPhase.exited.inj (hphase.symm.trans heq))
    rw [attributeTimeout_of_noResponse htimedOut herror, htold.heard hne]
  have hstepping (hphase : c.phase = .exited .timedOut) :
      rec.steppingAtTimeout = some true ↔ SteppingAnswered w.transport k :=
    (htold.timedOut hphase).2.2.trans answered_lifecycle
  refine ⟨c, n, hc, hn, htold.event, hname.symm, ?_, ?_, ?_, ?_⟩
  · intro hphase hanswered
    rw [hcause hphase, if_pos ((hstepping hphase).mpr hanswered)]
  · intro hphase hanswered hheard
    rw [hcause hphase, if_neg fun heq => hanswered ((hstepping hphase).mp heq), if_pos hheard]
  · intro hphase hanswered hheard
    rw [hcause hphase, if_neg fun heq => hanswered ((hstepping hphase).mp heq), hheard]
    rfl
  · intro hphase
    obtain ⟨htimedOut, hnone⟩ := htold.unasked hphase
    exact attributeTimeout_of_not_timedOut htimedOut hnone

/-- A call that times out after a broadcast of its event, and whose probe finds the CPU running. -/
def unpairedRun : List (Event × Sample) :=
  let frame (entries : List (String × Value)) : Event :=
    .recvFrame 0 (some (.dict (entries.map fun entry => (.str entry.1, entry.2))))
  [.connectBegin 0, .connectOpened 0 true, .loopStart 0,
   .callStart 0 "gpu.stats.get", .sent 0,
   frame [("event", .str "gpu.stats.get")],
   .interrupt 0 .timeout, .wake 0 1, .sent 1,
   frame [("ticket", .str "t2"), ("stepping", .bool false)],
   .wake 1 2].map fun e => (e, ⟨7, "ConnectionError: closed"⟩)

theorem timeout_attributed_unpairedRun : ∃ w rec,
    (watched fun _ => ⟨"5.0", by decide⟩).run .init unpairedRun = some w ∧
      w.diagnostics.records.head? = some (0, rec) ∧
        attributeTimeout (some rec) = .pairingBroken ∧
          ∃ c n, w.transport.calls 0 = some c ∧ c.ticket = some n ∧ rec.event = c.event ∧
            rec.ticket = ticketName n ∧ Attributed w 0 c rec := by
  have hrun : ∃ w, (watched fun _ => ⟨"5.0", by decide⟩).run .init unpairedRun = some w :=
    ⟨_, rfl⟩
  obtain ⟨w, hw⟩ := hrun
  have hcause : ((watched fun _ => ⟨"5.0", by decide⟩).run .init unpairedRun).bind
      (fun w => w.diagnostics.records.head?.map fun entry =>
        (entry.1, attributeTimeout (some entry.2))) = some (0, .pairingBroken) := rfl
  rw [hw] at hcause
  obtain ⟨⟨k, rec⟩, hhead, heq⟩ := Option.map_eq_some_iff.mp hcause
  obtain ⟨rfl, hpairing⟩ := Prod.mk.inj heq
  exact ⟨w, rec, hw, hhead, hpairing,
    timeout_attributed (Machine.reachable_of_run unpairedRun hw) (List.mem_of_mem_head? hhead)⟩

end Diagnostics
