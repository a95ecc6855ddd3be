import PpssppDfx.Observer.Dispatcher
import PpssppDfx.Semantics.Machine
import PpssppDfx.Transport.Model

/-!
# Confirmation of a resume

`resume()` empties the observer's queue of `cpu.resume` broadcasts, sends its command and
waits for a broadcast in that queue. On its way from the emulator a broadcast passes the
socket and the transport's queue before the dispatcher puts it there, and the drain looks at
neither.

The machine runs one client that pauses and resumes, the receive loop, the dispatcher and the
emulator over a channel that keeps the order in both directions. Broadcasts are numbered as
they are emitted.

## Main definitions

* `Broadcasts.resumption` — pause and resume calls, one after the other
* `Broadcasts.ConfirmedFresh` — every confirmation follows the command it confirms

## Main results

* `confirmedFresh_of_reaches` — no call takes an older broadcast when none was under way
-/

set_option autoImplicit false

namespace Broadcasts

open Semantics Function

/-- What the client sends. A `resume` carries the number of its call, which the emulator
does not see. -/
inductive Message where
  | stepping
  | resume (call : ℕ)
  | status (ticket : ℕ)
  deriving DecidableEq

/-- What the emulator sends: a broadcast, or the answer to a `cpu.status` request. -/
inductive Frame where
  | broadcast (name : Option EventName) (serial : ℕ)
  | status (ticket : ℕ) (stepping : Bool)
  deriving DecidableEq

/-- The event name under which the dispatcher looks for a queue. -/
def Frame.name : Frame → Option EventName
  | .broadcast name _ => name
  | .status _ _ => none

/-- The await a call stands at. -/
inductive ResumePhase where
  | idle
  /-- Awaiting the best-effort `cpu.status` of `pause()`. -/
  | probing (ticket : ℕ)
  /-- About to send `cpu.stepping`. -/
  | pausing
  /-- Drained, and about to send `cpu.resume`. -/
  | resuming
  /-- Awaiting the queue of `cpu.resume` broadcasts. -/
  | waiting
  /-- In `wait_for_state`, awaiting an answer or asleep. -/
  | polling (target : Bool) (ticket : Option ℕ)
  deriving DecidableEq

/-- The call awaits the answer with this ticket. -/
def ResumePhase.awaits (ticket : ℕ) : ResumePhase → Bool
  | .probing t => t == ticket
  | .polling _ (some t) => t == ticket
  | _ => false

/-- The emulator, the channel, the queues and the client. -/
structure Resumption where
  stepping : Bool
  /-- `prevState_ == CORE_STEPPING` of the broadcaster. -/
  prevStepping : Bool
  inbox : List Message
  wire : List Frame
  events : List Frame
  observer : Observer Frame
  /-- How many broadcasts were emitted. -/
  emitted : ℕ
  phase : ResumePhase
  reply : Option Bool
  tickets : ℕ
  /-- The number of the latest `resume()`. -/
  call : ℕ
  /-- How many broadcasts had been emitted when the command of a call was consumed. -/
  consumed : ℕ → Option ℕ
  /-- The calls that returned with a broadcast, and the broadcast they took. -/
  confirmed : List (ℕ × Frame)

/-- What the emulator, the channel and the client can do next. -/
inductive ResumeEvent where
  /-- The emulator consumes a message. -/
  | consumes
  /-- The broadcaster looks at the state of the CPU. -/
  | notices (active : Bool)
  /-- The emulator emits another broadcast. -/
  | announces (name : Option EventName)
  /-- A breakpoint stops the CPU, or somebody else changes its state. -/
  | changes (stepping : Bool)
  /-- The receive loop takes a frame. -/
  | receives
  /-- The dispatcher takes a broadcast. -/
  | dispatches
  | callPause
  /-- The best-effort probe ends, with an answer or without. -/
  | probed
  | callResume
  /-- The command of the call is sent. -/
  | sends
  /-- `wait_for_resume` returns true. -/
  | confirms
  /-- `wait_for_resume` returns false. -/
  | waitTimesOut
  /-- `wait_for_state` sends a request. -/
  | asks
  | answered
  /-- The call ends by an exception or a cancellation. -/
  | ends

/-- A client that has made no call. -/
def Resumption.init (stepping : Bool) : Resumption where
  stepping := stepping
  prevStepping := stepping
  inbox := []
  wire := []
  events := []
  observer := Broadcasts.init Frame
  emitted := 0
  phase := .idle
  reply := none
  tickets := 0
  call := 0
  consumed := fun _ => none
  confirmed := []

namespace Resumption

variable (s : Resumption)

/-- Emit a broadcast. -/
def emit (name : Option EventName) : Resumption :=
  { s with wire := s.wire ++ [.broadcast name s.emitted], emitted := s.emitted + 1 }

/-- The emulator executes a message. -/
def consume : Option Resumption :=
  match s.inbox with
  | [] => none
  | .stepping :: rest => some { s with inbox := rest, stepping := true }
  | .resume call :: rest =>
    some { s with
      inbox := rest
      stepping := false
      consumed := update s.consumed call (some ((s.consumed call).getD s.emitted)) }
  | .status ticket :: rest =>
    some { s with inbox := rest, wire := s.wire ++ [.status ticket s.stepping] }

/-- `SteppingBroadcaster`: a CPU that no longer steps is announced once, if it is active. -/
def notice (active : Bool) : Resumption :=
  let seen := { s with prevStepping := s.stepping }
  if s.prevStepping && !s.stepping && active then seen.emit (some .cpuResume) else seen

/-- `_recv_loop`: an answer goes to the call that awaits it, any other frame to the queue. -/
def receive : Option Resumption :=
  match s.wire with
  | [] => none
  | .broadcast name serial :: rest =>
    some { s with
      wire := rest
      events := pushDropOldest Transport.eventsQueueMax s.events (.broadcast name serial) }
  | .status ticket stepping :: rest =>
    -- the answer to a request that nobody awaits any more is queued like a broadcast
    if s.phase.awaits ticket then some { s with wire := rest, reply := some stepping }
    else
      some { s with
        wire := rest
        events := pushDropOldest Transport.eventsQueueMax s.events (.status ticket stepping) }

/-- `_dispatcher`. -/
def dispatchNext : Option Resumption :=
  match s.events with
  | [] => none
  | frame :: rest =>
    some { s with events := rest, observer := s.observer.dispatch frame.name frame }

/-- Send a `cpu.status` request and await the answer. -/
def ask (phase : ℕ → ResumePhase) : Resumption :=
  { s with
    inbox := s.inbox ++ [.status s.tickets]
    phase := phase s.tickets
    reply := none
    tickets := s.tickets + 1 }

/-- One step. -/
def step : ResumeEvent → Option Resumption
  | .consumes => s.consume
  | .notices active => some (s.notice active)
  | .announces name => if name = some .cpuResume then none else some (s.emit name)
  | .changes stepping => some { s with stepping := stepping }
  | .receives => s.receive
  | .dispatches => s.dispatchNext
  | .callPause =>
    match s.phase with
    | .idle => some (s.ask .probing)
    | _ => none
  | .probed =>
    match s.phase with
    | .probing _ => some { s with phase := .pausing, reply := none }
    | _ => none
  | .callResume =>
    match s.phase with
    | .idle =>
      some { s with
        observer := s.observer.drainResume
        call := s.call + 1
        phase := .resuming }
    | _ => none
  | .sends =>
    match s.phase with
    | .pausing => some { s with inbox := s.inbox ++ [.stepping], phase := .polling true none }
    | .resuming => some { s with inbox := s.inbox ++ [.resume s.call], phase := .waiting }
    | _ => none
  | .confirms =>
    match s.phase with
    | .waiting =>
      (s.observer.take .cpuResume).map fun r =>
        { s with
          observer := r.2
          phase := .idle
          confirmed := s.confirmed ++ [(s.call, r.1)] }
    | _ => none
  | .waitTimesOut =>
    match s.phase with
    | .waiting => some { s with phase := .polling false none }
    | _ => none
  | .asks =>
    match s.phase with
    | .polling target none => some (s.ask fun ticket => .polling target (some ticket))
    | _ => none
  | .answered =>
    match s.phase, s.reply with
    | .polling target (some _), some stepping =>
      some { s with
        phase := if stepping = target then .idle else .polling target none
        reply := none }
    | _, _ => none
  | .ends =>
    match s.phase with
    | .idle => none
    | _ => some { s with phase := .idle, reply := none }

end Resumption

/-- Successive calls of `pause()` and `resume()`. -/
def resumption : Machine Resumption ResumeEvent := ⟨Resumption.step⟩

/-! ## Fresh confirmations -/

/-- The broadcast is one that the emulator emitted after it consumed the command of the
call. -/
def Follows (s : Resumption) (call : ℕ) (frame : Frame) : Prop :=
  ∃ mark serial, s.consumed call = some mark ∧
    frame = .broadcast (some .cpuResume) serial ∧ mark ≤ serial

/-- Every call that returned with a broadcast took one that follows its command. -/
def ConfirmedFresh (s : Resumption) : Prop :=
  ∀ r ∈ s.confirmed, Follows s r.1 r.2

/-- The frames that may still reach a reader of the `cpu.resume` queue. -/
def Resumption.unread (s : Resumption) : List Frame :=
  s.observer.queues .cpuResume ++ s.events ++ s.wire

/-- When a `resume()` sends its command, no `cpu.resume` broadcast is unread, and none is
emitted while the command of a waiting call is on its way. -/
def Undelayed (s : Resumption) : ResumeEvent → Prop
  | .sends =>
    s.phase = .resuming → ∀ frame ∈ s.unread, frame.name ≠ some .cpuResume
  | .notices active =>
    s.phase = .waiting → (s.prevStepping && !s.stepping && active) = true →
      Message.resume s.call ∉ s.inbox
  | _ => True

/-! ## One step -/

/-- What reaches a reader while a call waits follows the command of the call. -/
structure Watched (s : Resumption) : Prop where
  queued : ∀ frame ∈ s.observer.queues .cpuResume, frame.name = some .cpuResume
  numbered : ∀ call mark, s.consumed call = some mark → mark ≤ s.emitted
  sent : s.phase = .waiting → s.consumed s.call = none → Message.resume s.call ∈ s.inbox
  awaited : s.phase = .waiting → ∀ frame ∈ s.unread, frame.name = some .cpuResume →
    Follows s s.call frame
  confirmed : ConfirmedFresh s

variable {s t : Resumption}

theorem watched_init (stepping : Bool) : Watched (.init stepping) where
  queued := fun _ hmem => by cases hmem
  numbered := fun _ _ hmark => by cases hmark
  sent := fun hphase => by cases hphase
  awaited := fun hphase => by cases hphase
  confirmed := fun _ hmem => by cases hmem

/-- A command that was consumed stays consumed at the same place. -/
theorem Follows.mono {call : ℕ} {frame : Frame} (h : Follows s call frame)
    (hconsumed : ∀ mark, s.consumed call = some mark → t.consumed call = some mark) :
    Follows t call frame := by
  obtain ⟨mark, serial, hmark, hframe, hle⟩ := h
  exact ⟨mark, serial, hconsumed mark hmark, hframe, hle⟩

/-- A step after which no further `cpu.resume` broadcast is unread, no further call waits, and
no command has been consumed. -/
theorem Watched.of_unread (h : Watched s)
    (hqueued : ∀ frame ∈ t.observer.queues .cpuResume, frame.name = some .cpuResume)
    (hunread : ∀ frame ∈ t.unread, frame.name = some .cpuResume → frame ∈ s.unread)
    (hconsumed : t.consumed = s.consumed) (hemitted : s.emitted ≤ t.emitted)
    (hwaiting : t.phase = .waiting → s.phase = .waiting ∧ t.call = s.call)
    (hinbox : ∀ call, Message.resume call ∈ s.inbox → Message.resume call ∈ t.inbox)
    (hconfirmed : t.confirmed = s.confirmed) : Watched t where
  queued := hqueued
  numbered := fun call mark hmark =>
    (h.numbered call mark (hconsumed ▸ hmark)).trans hemitted
  sent := fun hphase hnone => by
    obtain ⟨hwas, hcall⟩ := hwaiting hphase
    rw [hcall, hconsumed] at hnone
    rw [hcall]
    exact hinbox _ (h.sent hwas hnone)
  awaited := fun hphase frame hmem hname => by
    obtain ⟨hwas, hcall⟩ := hwaiting hphase
    rw [hcall]
    exact (h.awaited hwas frame (hunread frame hmem hname) hname).mono fun mark hmark =>
      hconsumed ▸ hmark
  confirmed := fun r hr =>
    (h.confirmed r (hconfirmed ▸ hr)).mono fun mark hmark => hconsumed ▸ hmark

/-- The emulator executes a command. -/
theorem Watched.consume (h : Watched s) (hstep : s.consume = some t) : Watched t := by
  unfold Resumption.consume at hstep
  split at hstep
  · cases hstep
  · rename_i rest hinbox
    obtain rfl := Option.some.inj hstep
    refine h.of_unread h.queued (fun _ hmem _ => hmem) rfl (Nat.le_refl _)
      (fun hphase => ⟨hphase, rfl⟩) (fun call hcall => ?_) rfl
    simpa [hinbox] using hcall
  · rename_i call rest hinbox
    obtain rfl := Option.some.inj hstep
    -- the first command of a call sets its mark, and a second one leaves it
    have hkept : ∀ c mark, s.consumed c = some mark →
        update s.consumed call (some ((s.consumed call).getD s.emitted)) c = some mark := by
      intro c mark hmark
      by_cases hc : c = call
      · subst hc
        simp [hmark]
      · simp [hc, hmark]
    refine ⟨h.queued, fun c mark hmark => ?_, fun hphase hnone => ?_,
      fun hphase frame hmem hname => ?_, fun r hr => (h.confirmed r hr).mono (hkept r.1)⟩
    · by_cases hc : c = call
      · subst hc
        obtain rfl : (s.consumed c).getD s.emitted = mark := by simpa using hmark
        cases hold : s.consumed c with
        | none => simp
        | some mark => simpa using h.numbered c mark hold
      · exact h.numbered c mark (by simpa [hc] using hmark)
    · by_cases hc : s.call = call
      · simp [hc] at hnone
      · have hsent := h.sent hphase (by simpa [hc] using hnone)
        simpa [hinbox, hc] using hsent
    · exact (h.awaited hphase frame hmem hname).mono (hkept s.call)
  · rename_i ticket rest hinbox
    obtain rfl := Option.some.inj hstep
    refine h.of_unread h.queued (fun frame hmem hname => ?_) rfl (Nat.le_refl _)
      (fun hphase => ⟨hphase, rfl⟩) (fun call hcall => ?_) rfl
    · simp only [Resumption.unread, List.mem_append, List.mem_singleton] at hmem ⊢
      rcases hmem with hmem | hmem | rfl
      · exact Or.inl hmem
      · exact Or.inr hmem
      -- an answer is no broadcast
      · cases hname
    · simpa [hinbox] using hcall

/-- Another broadcast is emitted. -/
theorem Watched.emit_of_ne (h : Watched s) {name : Option EventName}
    (hname : name ≠ some .cpuResume) : Watched (s.emit name) := by
  refine h.of_unread h.queued (fun frame hmem hframe => ?_) rfl (Nat.le_succ _)
    (fun hphase => ⟨hphase, rfl⟩) (fun _ hcall => hcall) rfl
  simp only [Resumption.unread, Resumption.emit, List.mem_append, List.mem_singleton] at hmem ⊢
  rcases hmem with hmem | hmem | rfl
  · exact Or.inl hmem
  · exact Or.inr hmem
  · exact absurd hframe hname

/-- The broadcaster announces that the CPU runs, after the command of a waiting call. -/
theorem Watched.notice (h : Watched s) {active : Bool} (hok : Undelayed s (.notices active)) :
    Watched (s.notice active) := by
  have hseen : Watched { s with prevStepping := s.stepping } :=
    h.of_unread h.queued (fun _ hmem _ => hmem) rfl (Nat.le_refl _)
      (fun hphase => ⟨hphase, rfl⟩) (fun _ hcall => hcall) rfl
  rw [Resumption.notice]
  split
  · rename_i hemits
    refine ⟨h.queued, fun c mark hmark => (h.numbered c mark hmark).trans (Nat.le_succ _),
      h.sent, fun hphase frame hmem hname => ?_, h.confirmed⟩
    simp only [Resumption.unread, Resumption.emit, List.mem_append, List.mem_singleton] at hmem
    rcases hmem with hmem | hmem | rfl
    · exact h.awaited hphase frame (List.mem_append_left _ (List.mem_append.mpr hmem)) hname
    · exact h.awaited hphase frame (List.mem_append_right _ hmem) hname
    · -- The command was consumed: otherwise it would be on its way.
      cases hmark : s.consumed s.call with
      | none => exact absurd (h.sent hphase hmark) (hok hphase hemits)
      | some mark => exact ⟨mark, s.emitted, hmark, rfl, h.numbered _ _ hmark⟩
  · exact hseen

/-- A frame comes out of the channel: it was unread before. -/
theorem Watched.receive (h : Watched s) (hstep : s.receive = some t) : Watched t := by
  have hpushed : ∀ frame rest, s.wire = frame :: rest →
      Watched { s with
        wire := rest
        events := pushDropOldest Transport.eventsQueueMax s.events frame } := by
    intro frame rest hwire
    refine h.of_unread h.queued (fun f hmem _ => ?_) rfl (Nat.le_refl _)
      (fun hphase => ⟨hphase, rfl⟩) (fun _ hcall => hcall) rfl
    simp only [Resumption.unread, hwire, List.mem_append, List.mem_cons] at hmem ⊢
    rcases hmem with (hmem | hmem) | hmem
    · exact Or.inl (Or.inl hmem)
    · exact (mem_pushDropOldest hmem).imp Or.inr Or.inl
    · exact Or.inr (Or.inr hmem)
  unfold Resumption.receive at hstep
  split at hstep
  · cases hstep
  · rename_i name serial rest hwire
    obtain rfl := Option.some.inj hstep
    exact hpushed _ rest hwire
  · rename_i ticket stepping rest hwire
    split at hstep
    · obtain rfl := Option.some.inj hstep
      refine h.of_unread h.queued (fun f hmem _ => ?_) rfl (Nat.le_refl _)
        (fun hphase => ⟨hphase, rfl⟩) (fun _ hcall => hcall) rfl
      simp only [Resumption.unread, hwire, List.mem_append, List.mem_cons] at hmem ⊢
      exact hmem.imp_right Or.inr
    · obtain rfl := Option.some.inj hstep
      exact hpushed _ rest hwire

/-- The queue of `cpu.resume` broadcasts after one broadcast. -/
theorem dispatch_cpuResume (o : Observer Frame) (name : Option EventName) (frame : Frame) :
    (o.dispatch name frame).queues .cpuResume =
      if name = some .cpuResume then pushDropOldest eventQueueMax (o.queues .cpuResume) frame
      else o.queues .cpuResume := by
  cases name with
  | none => rfl
  | some name =>
    rw [Observer.dispatch_queues]
    by_cases hname : name = .cpuResume
    · subst hname
      simp
    · rw [update_of_ne (Ne.symm hname), if_neg (by simpa using hname)]

/-- The dispatcher moves a broadcast on: it was unread before. -/
theorem Watched.dispatchNext (h : Watched s) (hstep : s.dispatchNext = some t) : Watched t := by
  unfold Resumption.dispatchNext at hstep
  split at hstep
  · cases hstep
  · rename_i frame rest hevents
    obtain rfl := Option.some.inj hstep
    have hmoved : ∀ f ∈ (s.observer.dispatch frame.name frame).queues .cpuResume,
        f ∈ s.observer.queues .cpuResume ∨ f = frame ∧ frame.name = some .cpuResume := by
      intro f hmem
      rw [dispatch_cpuResume] at hmem
      split at hmem
      · rename_i hname
        exact (mem_pushDropOldest hmem).imp_right fun hf => ⟨hf, hname⟩
      · exact Or.inl hmem
    refine h.of_unread (fun f hmem => ?_) (fun f hmem _ => ?_) rfl (Nat.le_refl _)
      (fun hphase => ⟨hphase, rfl⟩) (fun _ hcall => hcall) rfl
    · rcases hmoved f hmem with hold | ⟨rfl, hname⟩
      · exact h.queued f hold
      · exact hname
    · simp only [Resumption.unread, hevents, List.mem_append, List.mem_cons] at hmem ⊢
      rcases hmem with (hmem | hmem) | hmem
      · rcases hmoved f hmem with hold | ⟨rfl, -⟩
        · exact Or.inl (Or.inl hold)
        · exact Or.inl (Or.inr (Or.inl rfl))
      · exact Or.inl (Or.inr (Or.inr hmem))
      · exact Or.inr hmem

/-- A step of the client that sends nothing but status requests and does not begin to wait. -/
theorem Watched.idle (h : Watched s) {phase : ResumePhase} (hphase : phase ≠ .waiting)
    (inbox : List Message) (reply : Option Bool) (tickets : ℕ) :
    Watched { s with inbox := inbox, phase := phase, reply := reply, tickets := tickets } where
  queued := h.queued
  numbered := h.numbered
  sent := fun hwaiting => absurd hwaiting hphase
  awaited := fun hwaiting => absurd hwaiting hphase
  confirmed := h.confirmed

/-- The drain leaves nothing to read in the observer's queue. -/
theorem Watched.callResume (h : Watched s) :
    Watched { s with
      observer := s.observer.drainResume
      call := s.call + 1
      phase := .resuming } where
  queued := fun frame hmem => by simp [Observer.drainResume] at hmem
  numbered := h.numbered
  sent := fun hwaiting => by cases hwaiting
  awaited := fun hwaiting => by cases hwaiting
  confirmed := h.confirmed

/-- The command is sent while no `cpu.resume` broadcast is unread. -/
theorem Watched.sendResume (h : Watched s)
    (hok : ∀ frame ∈ s.unread, frame.name ≠ some .cpuResume) :
    Watched { s with inbox := s.inbox ++ [.resume s.call], phase := .waiting } where
  queued := h.queued
  numbered := h.numbered
  sent := fun _ _ => by simp
  awaited := fun _ frame hmem hname => absurd hname (hok frame hmem)
  confirmed := h.confirmed

/-- What a waiting call takes follows its command. -/
theorem Watched.confirm (h : Watched s) {frame : Frame} {o : Observer Frame}
    (hphase : s.phase = .waiting) (htake : s.observer.take .cpuResume = some (frame, o)) :
    Watched { s with
      observer := o, phase := .idle, confirmed := s.confirmed ++ [(s.call, frame)] } := by
  rw [Observer.take] at htake
  split at htake
  · rename_i msg rest hqueue
    obtain ⟨rfl, rfl⟩ := Prod.mk.inj (Option.some.inj htake)
    have hmem : msg ∈ s.observer.queues .cpuResume := by simp [hqueue]
    exact {
      queued := fun f hf => by
        simp only [update_self] at hf
        exact h.queued f (hqueue ▸ List.mem_cons_of_mem _ hf)
      numbered := h.numbered
      sent := fun hwaiting => by cases hwaiting
      awaited := fun hwaiting => by cases hwaiting
      confirmed := fun r hr => by
        rcases List.mem_append.mp hr with hr | hr
        · exact h.confirmed r hr
        · obtain rfl := List.mem_singleton.mp hr
          exact h.awaited hphase msg
            (List.mem_append_left _ (List.mem_append_left _ hmem)) (h.queued msg hmem) }
  · cases htake

theorem Watched.step {e : ResumeEvent} (h : Watched s) (hok : Undelayed s e)
    (hstep : s.step e = some t) : Watched t := by
  -- only a command, a broadcast and the calls that wait for one concern the invariant
  cases e with
  | consumes => exact h.consume hstep
  | notices active =>
    obtain rfl := Option.some.inj hstep
    exact h.notice hok
  | announces name =>
    simp only [Resumption.step] at hstep
    split at hstep
    · cases hstep
    · rename_i hname
      obtain rfl := Option.some.inj hstep
      exact h.emit_of_ne hname
  | changes stepping =>
    obtain rfl := Option.some.inj hstep
    exact h.of_unread h.queued (fun _ hmem _ => hmem) rfl (Nat.le_refl _)
      (fun hphase => ⟨hphase, rfl⟩) (fun _ hcall => hcall) rfl
  | receives => exact h.receive hstep
  | dispatches => exact h.dispatchNext hstep
  | callPause =>
    simp only [Resumption.step] at hstep
    split at hstep
    · obtain rfl := Option.some.inj hstep
      exact h.idle (by simp) _ _ _
    · cases hstep
  | probed =>
    simp only [Resumption.step] at hstep
    split at hstep
    · obtain rfl := Option.some.inj hstep
      exact h.idle (by simp) _ _ _
    · cases hstep
  | callResume =>
    simp only [Resumption.step] at hstep
    split at hstep
    · obtain rfl := Option.some.inj hstep
      exact h.callResume
    · cases hstep
  | sends =>
    simp only [Resumption.step] at hstep
    split at hstep
    · obtain rfl := Option.some.inj hstep
      exact h.idle (by simp) _ _ _
    · rename_i hphase
      obtain rfl := Option.some.inj hstep
      exact h.sendResume (hok hphase)
    · cases hstep
  | confirms =>
    simp only [Resumption.step] at hstep
    split at hstep
    · rename_i hphase
      obtain ⟨⟨frame, o⟩, htake, rfl⟩ := Option.map_eq_some_iff.mp hstep
      exact h.confirm hphase htake
    · cases hstep
  | waitTimesOut =>
    simp only [Resumption.step] at hstep
    split at hstep
    · obtain rfl := Option.some.inj hstep
      exact h.idle (by simp) _ _ _
    · cases hstep
  | asks =>
    simp only [Resumption.step] at hstep
    split at hstep
    · obtain rfl := Option.some.inj hstep
      exact h.idle (by simp) _ _ _
    · cases hstep
  | answered =>
    simp only [Resumption.step] at hstep
    split at hstep
    · obtain rfl := Option.some.inj hstep
      exact h.idle (by split <;> simp) _ _ _
    · cases hstep
  | ends =>
    simp only [Resumption.step] at hstep
    split at hstep
    · cases hstep
    · obtain rfl := Option.some.inj hstep
      exact h.idle (by simp) _ _ _

/-! ## Runs -/

/-- In a run in which every command is sent while no `cpu.resume` broadcast is unread, and
none is emitted while it is on its way, every confirmation follows its command. -/
theorem confirmedFresh_of_reaches {stepping : Bool}
    (h : resumption.Reaches Undelayed (.init stepping) s) : ConfirmedFresh s := by
  have hwatched : Watched s :=
    h.invariant (watched_init stepping) fun _ _ _ hold hok hstep => hold.step hok hstep
  exact hwatched.confirmed

instance (s : Resumption) (e : ResumeEvent) : Decidable (Undelayed s e) := by
  unfold Undelayed
  split <;> infer_instance

/-- A resume that its own broadcast confirms. -/
def confirmedRun : List ResumeEvent :=
  [.callResume, .sends, .consumes, .notices true, .receives, .dispatches, .confirms]

theorem confirmedFresh_confirmedRun :
    ∃ s, s.confirmed = [(1, .broadcast (some .cpuResume) 0)] ∧ ConfirmedFresh s := by
  have hends : (resumption.runWith Undelayed (.init true) confirmedRun).any
      (fun s => decide (s.confirmed = [(1, .broadcast (some .cpuResume) 0)])) = true := by
    decide +kernel
  obtain ⟨s, hreach, htest⟩ := Machine.exists_reaches_of_runWith _ hends
  exact ⟨s, of_decide_eq_true htest, confirmedFresh_of_reaches hreach⟩

/-- A resume that a status poll confirms, and a second one while the broadcast of the first
is on its way. -/
def lateRun : List ResumeEvent :=
  [.callResume, .sends, .consumes, .waitTimesOut, .asks, .consumes, .receives, .answered,
   .notices true, .callResume, .sends, .receives, .dispatches, .confirms]

/-- The broadcast of the first confirms the second, whose command the emulator has not
consumed. -/
theorem not_confirmedFresh_lateRun :
    ¬ ∀ (stepping : Bool) (s : Resumption),
      resumption.Reachable (.init stepping) s → ConfirmedFresh s := by
  intro hall
  have hends : (resumption.run (.init true) lateRun).any (fun s =>
      decide ((2, Frame.broadcast (some .cpuResume) 0) ∈ s.confirmed ∧ s.consumed 2 = none)) =
      true := by
    decide +kernel
  obtain ⟨s, hreach, htest⟩ := Machine.exists_reachable_of_run _ hends
  obtain ⟨hmem, hnone⟩ := of_decide_eq_true htest
  obtain ⟨mark, serial, hmark, -⟩ := hall true s hreach _ hmem
  rw [hnone] at hmark
  cases hmark

end Broadcasts
