import PpssppDfx.Transport.Model

/-!
# The lives of the calls

Of what a slice does, most calls see nothing: one call starts, registers, is sent, leaves, or
turns to its stepping probe. A call that leaves a probe takes the call that probed with it.
This file keeps of each call what such a slice changes, and shows that probes are never nested
in probes.

## Main definitions

* `Transport.Lifecycle` — the calls without their futures
* `Transport.Move` — what a slice does to them
* `Transport.Nest` — a call and its probe

## Main results

* `Transport.lifecycle_apply` — every slice makes the move that it is read as
* `Transport.nest_of_reachable` — the invariant of every run
-/

set_option autoImplicit false

namespace Transport

open Semantics

/-- A call without its future. -/
structure View where
  event : String
  parent : Option ℕ
  ticket : Option ℕ
  phase : CallPhase

def Call.view (c : Call) : View := ⟨c.event, c.parent, c.ticket, c.phase⟩

/-- The call has ended. -/
def CallPhase.isExited : CallPhase → Bool
  | .exited _ => true
  | _ => false

/-- The call awaits its connection, its send or its reply. -/
def CallPhase.isOpen : CallPhase → Bool
  | .reconnecting => true
  | .sending => true
  | .waiting => true
  | _ => false

/-- The calls of a transport, and the latch of the probe. -/
structure Lifecycle where
  calls : ℕ → Option View
  probing : Bool

/-- What a state has of the lives of its calls. -/
def lifecycle (s : State) : Lifecycle := ⟨fun k => (s.calls k).map Call.view, s.probingStepping⟩

/-- What a call raises when the call of its probe leaves. -/
def Outcome.raised : Outcome → Outcome
  | .cancelled => .cancelled
  | _ => .timedOut

/-- What a slice does to the calls. -/
inductive Move where
  | quiet
  | create (k : ℕ) (v : View)
  | sent (k : ℕ)
  | leave (k : ℕ) (outcome : Outcome)
  | probe (k child : ℕ) (ticket : Option ℕ)

/-- Change one view. -/
def Lifecycle.modify (life : Lifecycle) (k : ℕ) (f : View → View) : Lifecycle :=
  { life with calls := Function.update life.calls k ((life.calls k).map f) }

/-- Put one view. -/
def Lifecycle.set (life : Lifecycle) (k : ℕ) (v : View) : Lifecycle :=
  { life with calls := Function.update life.calls k (some v) }

/-- A call that ends. -/
def View.exit (v : View) (outcome : Outcome) : View := { v with phase := .exited outcome }

/-- The call of a probe, with its ticket if there is a connection. -/
def probeView (k : ℕ) (ticket : Option ℕ) : View where
  event := "cpu.status"
  parent := some k
  ticket := ticket
  phase := if ticket.isSome then .sending else .reconnecting

/-- A move. -/
def Move.apply (life : Lifecycle) : Move → Lifecycle
  | .quiet => life
  | .create k v => life.set k v
  | .sent k => life.modify k fun v => { v with phase := .waiting }
  | .leave k outcome =>
    match (life.calls k).bind View.parent with
    | none => life.modify k (·.exit outcome)
    | some p =>
      (({ life with probing := false }).modify k (·.exit outcome)).modify p (·.exit outcome.raised)
  | .probe k child ticket =>
    (({ life with probing := true }).modify k fun v => { v with phase := .probing }).set child
      (probeView k ticket)

/-- Where a move can be made. -/
def Move.Allowed (life : Lifecycle) : Move → Prop
  | .quiet => True
  | .create k v => v.phase.isOpen = true ∧
    ((life.calls k = none ∧ v.parent = none) ∨ ∃ u, life.calls k = some u ∧
      u.phase = .reconnecting ∧ v.phase = .sending ∧ v.event = u.event ∧ v.parent = u.parent)
  | .sent k => ∃ v, life.calls k = some v ∧ v.phase = .sending
  | .leave k _ => ∃ v, life.calls k = some v ∧ v.phase.isOpen = true
  | .probe k child _ => (∃ v, life.calls k = some v ∧ v.phase = .waiting) ∧
    life.calls child = none ∧ life.probing = false

/-- The ticket that a call gets if it registers now. -/
def nextTicket (s : State) : Option ℕ := if isConnected s then some (s.ticketCounter + 1) else none

/-- The view of a call that registers now. -/
def registeredView (s : State) (event : String) (parent : Option ℕ) : View :=
  ⟨event, parent, some (s.ticketCounter + 1), .sending⟩

/-- The move that a slice makes. -/
def move (s : State) : Event → Move
  | .callStart k event =>
    if isConnected s then .create k (registeredView s event none)
    else .create k ⟨event, none, none, .reconnecting⟩
  | .reconnected k =>
    match s.calls k with
    | some c =>
      if s.ws.isSome then .create k (registeredView s c.event c.parent)
      else .leave k .notConnected
    | none => .quiet
  | .reconnectFailed k cancelled => .leave k (if cancelled then .cancelled else .notConnected)
  | .sent k => .sent k
  | .sendFailed k cancelled => .leave k (if cancelled then .cancelled else .sendFailed)
  | .wake k child =>
    match s.calls k with
    | none => .quiet
    | some c =>
      match c.interrupt, c.future with
      | some .cancel, _ => .leave k .cancelled
      | some .timeout, _ =>
        if s.probingStepping then .leave k .timedOut else .probe k child (nextTicket s)
      | none, .result data => .leave k (.returned data)
      | none, .peerError data => .leave k (.peerError data)
      | none, .connectionError message => .leave k (.connectionError message)
      | none, .cancelled => .leave k .cancelled
      | none, .waiting => .quiet
  | _ => .quiet

/-! ## Slices are moves -/

section Slices

variable {s : State} {k : ℕ}

theorem lifecycle_eq {s t : State} (hcalls : t.calls = s.calls)
    (hprobing : t.probingStepping = s.probingStepping) : lifecycle t = lifecycle s := by
  rw [lifecycle, lifecycle, hcalls, hprobing]

/-- A change of a call that its view shows as a change of the view. -/
theorem lifecycle_modifyCall (f : Call → Call) (g : View → View)
    (hview : ∀ c, (f c).view = g c.view) :
    lifecycle (modifyCall s k f) = (lifecycle s).modify k g := by
  simp only [lifecycle, modifyCall, Lifecycle.modify, Lifecycle.mk.injEq, and_true]
  funext i
  by_cases hi : i = k
  · subst hi
    simp only [Function.update_self, Option.map_map]
    congr 1
    exact funext hview
  · simp only [Function.update_of_ne hi]

/-- A change of a call that its view does not show. -/
theorem lifecycle_modifyCall_self (f : Call → Call) (hview : ∀ c, (f c).view = c.view) :
    lifecycle (modifyCall s k f) = lifecycle s := by
  rw [lifecycle_modifyCall f id hview]
  simp [Lifecycle.modify, lifecycle]

theorem lifecycle_setCall (c : Call) :
    lifecycle (setCall s k c) = (lifecycle s).set k c.view := by
  simp only [lifecycle, setCall, Lifecycle.set, Lifecycle.mk.injEq, and_true]
  funext i
  by_cases hi : i = k
  · subst hi
    simp
  · simp only [Function.update_of_ne hi]

@[simp] theorem lifecycle_popTicket (ticket : String) :
    lifecycle (popTicket s ticket) = lifecycle s := rfl

@[simp] theorem lifecycle_popOwn : lifecycle (popOwn s k) = lifecycle s := by
  unfold popOwn
  split <;> rfl

theorem lifecycle_register (event : String) (parent : Option ℕ) :
    lifecycle (register s k event parent) =
      (lifecycle s).set k (registeredView s event parent) :=
  lifecycle_setCall _

theorem lifecycle_exitCall (outcome : Outcome) :
    lifecycle (exitCall s k outcome) = (Move.leave k outcome).apply (lifecycle s) := by
  have hparent : ((lifecycle s).calls k).bind View.parent = (s.calls k).bind Call.parent := by
    cases hc : s.calls k <;> simp [lifecycle, hc, Call.view]
  unfold exitCall Move.apply
  simp only [hparent]
  cases (s.calls k).bind Call.parent with
  | none => exact lifecycle_modifyCall _ _ fun c => rfl
  | some p =>
    simp only
    rw [lifecycle_modifyCall _ (·.exit outcome.raised),
      lifecycle_modifyCall _ (·.exit outcome) fun c => rfl]
    · rfl
    · intro c
      cases outcome <;> rfl

theorem lifecycle_enterCall (event : String) (parent : Option ℕ) :
    lifecycle (enterCall s k event parent) = (lifecycle s).set k ⟨event, parent, nextTicket s,
      if (nextTicket s).isSome then .sending else .reconnecting⟩ := by
  unfold enterCall nextTicket
  split
  · exact lifecycle_register event parent
  · exact lifecycle_setCall _

/-- The timeout of a call makes it leave or probe. -/
theorem lifecycle_timeOut {child : ℕ} : lifecycle (timeOut s k child) =
    (if s.probingStepping then Move.leave k .timedOut
      else .probe k child (nextTicket s)).apply (lifecycle s) := by
  have hlatch : (popOwn s k).probingStepping = s.probingStepping :=
    congrArg Lifecycle.probing lifecycle_popOwn
  unfold timeOut
  simp only [hlatch]
  split
  · rw [lifecycle_exitCall, lifecycle_popOwn]
  · have hnext : nextTicket (modifyCall { popOwn s k with probingStepping := true } k
        fun c => { c with phase := .probing }) = nextTicket s := by
      unfold popOwn
      split <;> rfl
    have hset : lifecycle { popOwn s k with probingStepping := true } =
        { lifecycle s with probing := true } := by
      rw [← lifecycle_popOwn (s := s) (k := k)]
      rfl
    rw [lifecycle_enterCall, lifecycle_modifyCall _ (fun v => { v with phase := .probing })
      fun c => rfl, hnext, hset]
    rfl

theorem lifecycle_sever (socket : Option ℕ) : lifecycle (sever s socket) = lifecycle s := by
  cases socket <;> rfl

theorem lifecycle_loopHead (l : ℕ) : lifecycle (loopHead s l) = lifecycle s := by
  unfold loopHead
  split
  · split
    · rfl
    · exact lifecycle_sever _
  · exact lifecycle_sever _

theorem view_resolve (c : Call) (future : Future) : (c.resolve future).view = c.view := by
  unfold Call.resolve
  split <;> rfl

theorem lifecycle_failEntries (message : String) (entries : List (String × ℕ)) :
    ∀ s : State, lifecycle (failEntries s message entries) = lifecycle s := by
  induction entries with
  | nil => exact fun s => rfl
  | cons entry rest ih =>
    intro s
    rw [failEntries, ih, lifecycle_modifyCall_self _ fun c => view_resolve c _]

theorem lifecycle_failPending (message : String) :
    lifecycle (failPending s message) = lifecycle s :=
  lifecycle_failEntries message s.pending _

theorem lifecycle_dispatch (raw : Option Python.Value) :
    lifecycle (dispatch s raw) = lifecycle s := by
  unfold dispatch
  split
  · split
    · rfl
    · unfold queueFrame
      simp only
      split <;> rfl
    · exact lifecycle_modifyCall_self _ fun c => view_resolve c _
  · rfl

theorem lifecycle_connectDrop (j : ℕ) : lifecycle (connectDrop s j) = lifecycle s := by
  unfold connectDrop
  split <;> rfl

theorem lifecycle_closeFail (i : ℕ) (l : Option ℕ) :
    lifecycle (closeFail s i l) = lifecycle s := by
  have hsever : lifecycle (sever (failPending s "WebSocket closed") l) = lifecycle s := by
    rw [lifecycle_sever, lifecycle_failPending]
  unfold closeFail
  simp only
  split
  · split <;> exact hsever
  · exact hsever

theorem lifecycle_closeAfterLoop (i l : ℕ) (cause : LoopEnd) :
    lifecycle (closeAfterLoop s i l cause) = lifecycle s := by
  unfold closeAfterLoop
  split
  · rfl
  · exact lifecycle_closeFail i (some l)

end Slices

/-- Every slice makes the move that it is read as. -/
theorem lifecycle_apply (s : State) (e : Event) :
    lifecycle (apply s e) = (move s e).apply (lifecycle s) := by
  cases e with
  | callStart k event =>
    simp only [apply, move]
    split
    · rename_i hconn
      rw [enterCall, if_pos hconn, lifecycle_register]
      rfl
    · rename_i hconn
      rw [enterCall, if_neg hconn, lifecycle_setCall]
      rfl
  | reconnected k =>
    simp only [apply, move]
    cases s.calls k with
    | none => rfl
    | some c =>
      simp only
      split
      · exact lifecycle_register c.event c.parent
      · exact lifecycle_exitCall .notConnected
  | reconnectFailed k cancelled => exact lifecycle_exitCall _
  | sent k => exact lifecycle_modifyCall _ _ fun c => rfl
  | sendFailed k cancelled =>
    simp only [apply, move]
    rw [lifecycle_exitCall, lifecycle_popOwn]
  | interrupt k i => exact lifecycle_modifyCall_self _ fun c => rfl
  | wake k child =>
    simp only [apply, move, wakeCall]
    cases s.calls k with
    | none => rfl
    | some c =>
      simp only
      cases hinterrupt : c.interrupt with
      | some interrupt =>
        cases interrupt with
        | timeout => exact lifecycle_timeOut
        | cancel => rw [lifecycle_exitCall, lifecycle_popOwn]
      | none =>
        cases hfuture : c.future with
        | waiting => rfl
        | result data => exact lifecycle_exitCall _
        | peerError data => rw [lifecycle_exitCall, lifecycle_popOwn]
        | connectionError message => rw [lifecycle_exitCall, lifecycle_popOwn]
        | cancelled => rw [lifecycle_exitCall, lifecycle_popOwn]
  | fireAndForget => rfl
  | loopStart l => exact lifecycle_loopHead l
  | recvTimeout l => exact lifecycle_loopHead l
  | recvFrame l raw => exact (lifecycle_loopHead l).trans (lifecycle_dispatch raw)
  | recvClosed l =>
    exact (lifecycle_sever (some l)).trans (lifecycle_failPending "PPSSPP WebSocket disconnected")
  | recvFailed l => exact lifecycle_sever (some l)
  | loopCancelled l =>
    simp only [apply]
    split
    · rfl
    · exact lifecycle_sever _
  | socketState socket state => rfl
  | connectBegin j =>
    simp only [apply, connectBegin]
    split
    · split
      · rfl
      · exact lifecycle_connectDrop j
    · exact lifecycle_connectDrop j
  | connectLoopEnded j => exact lifecycle_connectDrop j
  | connectOldClosed j => exact lifecycle_sever _
  | connectOpened j selected => cases selected <;> exact lifecycle_sever s.ws
  | connectUnselectedClosed j => exact lifecycle_sever _
  | connectRaised j => rfl
  | closeBegin i =>
    simp only [apply, closeBegin]
    split
    · split
      · exact lifecycle_closeAfterLoop i _ _
      · rfl
    · exact lifecycle_closeFail i none
  | closeLoopEnded i =>
    simp only [apply]
    split
    · exact lifecycle_closeAfterLoop i _ _
    · rfl
  | closeSocketClosed i raised => rfl

theorem phase_of_isReconnecting {phase : CallPhase} (h : phase.isReconnecting = true) :
    phase = .reconnecting := by
  cases phase <;> first | rfl | exact absurd h Bool.false_ne_true

theorem phase_of_isSending {phase : CallPhase} (h : phase.isSending = true) :
    phase = .sending := by
  cases phase <;> first | rfl | exact absurd h Bool.false_ne_true

theorem phase_of_isWaiting {phase : CallPhase} (h : phase.isWaiting = true) :
    phase = .waiting := by
  cases phase <;> first | rfl | exact absurd h Bool.false_ne_true

/-- A slice that can run makes a move that is allowed. -/
theorem move_allowed {s : State} {e : Event} (h : enabled s e = true) :
    (move s e).Allowed (lifecycle s) := by
  have hview {k : ℕ} {c : Call} (hc : s.calls k = some c) :
      (lifecycle s).calls k = some c.view := by simp [lifecycle, hc]
  have hnone {k : ℕ} (hc : s.calls k = none) : (lifecycle s).calls k = none := by
    simp [lifecycle, hc]
  cases e with
  | callStart k event =>
    have hfree : s.calls k = none := by simpa [enabled] using h
    simp only [move]
    split <;> exact ⟨rfl, Or.inl ⟨hnone hfree, rfl⟩⟩
  | reconnected k =>
    obtain ⟨c, hc, hphase⟩ := (Option.any_eq_true _ _).mp h
    have hphase := phase_of_isReconnecting hphase
    simp only [move, hc]
    split
    · exact ⟨rfl, Or.inr ⟨c.view, hview hc, hphase, rfl, rfl, rfl⟩⟩
    · refine ⟨c.view, hview hc, ?_⟩
      rw [show c.view.phase = .reconnecting from hphase]
      rfl
  | reconnectFailed k cancelled =>
    obtain ⟨c, hc, hphase⟩ := (Option.any_eq_true _ _).mp h
    refine ⟨c.view, hview hc, ?_⟩
    rw [show c.view.phase = .reconnecting from phase_of_isReconnecting hphase]
    rfl
  | sent k =>
    obtain ⟨c, hc, hphase⟩ := (Option.any_eq_true _ _).mp h
    exact ⟨c.view, hview hc, phase_of_isSending hphase⟩
  | sendFailed k cancelled =>
    obtain ⟨c, hc, hphase⟩ := (Option.any_eq_true _ _).mp h
    refine ⟨c.view, hview hc, ?_⟩
    rw [show c.view.phase = .sending from phase_of_isSending hphase]
    rfl
  | wake k child =>
    simp only [enabled, Bool.and_eq_true, Option.isNone_iff_eq_none] at h
    obtain ⟨hwake, hchild⟩ := h
    obtain ⟨c, hc, hready⟩ := (Option.any_eq_true _ _).mp hwake
    have hphase : c.view.phase = .waiting :=
      phase_of_isWaiting (Bool.and_eq_true_iff.mp hready).1
    have hleave (outcome : Outcome) : (Move.leave k outcome).Allowed (lifecycle s) :=
      ⟨c.view, hview hc, by rw [hphase]; rfl⟩
    simp only [move, hc]
    cases hinterrupt : c.interrupt with
    | some interrupt =>
      cases interrupt with
      | timeout =>
        simp only
        split
        · exact hleave _
        · rename_i hlatch
          exact ⟨⟨c.view, hview hc, hphase⟩, hnone hchild, Bool.eq_false_iff.mpr hlatch⟩
      | cancel => exact hleave _
    | none =>
      cases hfuture : c.future with
      | waiting => trivial
      | result data => exact hleave _
      | peerError data => exact hleave _
      | connectionError message => exact hleave _
      | cancelled => exact hleave _
  | _ => trivial

/-! ## A call and its probe -/

/-- A call with a parent is the only probe of that parent, which waits for it; there is one such
call at a time, while the latch is on. -/
structure Nest (life : Lifecycle) : Prop where
  /-- The parent probes while the call is open, and ends with it. -/
  parent : ∀ {k v p}, life.calls k = some v → v.parent = some p → ∃ u, life.calls p = some u ∧
    u.parent = none ∧ if v.phase.isOpen then u.phase = .probing else u.phase.isExited = true
  /-- The call of a probe does not probe itself. -/
  plain : ∀ {k v p}, life.calls k = some v → v.parent = some p → v.phase ≠ .probing
  latch : ∀ {k v p}, life.calls k = some v → v.parent = some p → v.phase.isOpen = true →
    life.probing = true
  single : ∀ {k k' v v' p p'}, life.calls k = some v → life.calls k' = some v' →
    v.parent = some p → v'.parent = some p' → v.phase.isOpen = true → v'.phase.isOpen = true →
    k = k'
  only : ∀ {k k' v v' p}, life.calls k = some v → life.calls k' = some v' → v.parent = some p →
    v'.parent = some p → k = k'

section Nest

variable {life : Lifecycle} {k : ℕ}

theorem calls_set (v : View) (i : ℕ) :
    (life.set k v).calls i = if i = k then some v else life.calls i := by
  by_cases hi : i = k
  · subst hi
    simp [Lifecycle.set]
  · simp [Lifecycle.set, hi]

theorem calls_modify (f : View → View) (i : ℕ) :
    (life.modify k f).calls i = if i = k then (life.calls k).map f else life.calls i := by
  by_cases hi : i = k
  · subst hi
    simp [Lifecycle.modify]
  · simp [Lifecycle.modify, hi]

/-- A call that is open is no parent. -/
theorem Nest.parent_ne (h : Nest life) {v : View} (hk : life.calls k = some v)
    (hopen : v.phase.isOpen = true) {i p : ℕ} {w : View} (hi : life.calls i = some w)
    (hp : w.parent = some p) : p ≠ k := by
  rintro rfl
  obtain ⟨u, hu, _, hphase⟩ := h.parent hi hp
  obtain rfl : v = u := Option.some.inj (hk.symm.trans hu)
  split at hphase
  · rw [hphase] at hopen
    exact absurd hopen Bool.false_ne_true
  · cases hv : v.phase <;> simp_all [CallPhase.isOpen, CallPhase.isExited]

theorem calls_set_cases {v w : View} {i : ℕ} (h : (life.set k v).calls i = some w) :
    (i = k ∧ w = v) ∨ (i ≠ k ∧ life.calls i = some w) := by
  rw [calls_set] at h
  split at h
  · exact Or.inl ⟨‹_›, (Option.some.inj h).symm⟩
  · exact Or.inr ⟨‹_›, h⟩

theorem calls_modify_cases {f : View → View} {w : View} {i : ℕ}
    (h : (life.modify k f).calls i = some w) :
    (i = k ∧ ∃ v, life.calls k = some v ∧ w = f v) ∨ (i ≠ k ∧ life.calls i = some w) := by
  rw [calls_modify] at h
  split at h
  · obtain ⟨v, hv, rfl⟩ := Option.map_eq_some_iff.mp h
    exact Or.inl ⟨‹_›, v, hv, rfl⟩
  · exact Or.inr ⟨‹_›, h⟩

/-- A call that starts has no parent. -/
theorem Nest.start (h : Nest life) {v : View} (hk : life.calls k = none) (hv : v.parent = none) :
    Nest (life.set k v) := by
  have hold {i p : ℕ} {w : View} (hi : (life.set k v).calls i = some w)
      (hp : w.parent = some p) : life.calls i = some w := by
    rcases calls_set_cases hi with ⟨_, rfl⟩ | ⟨_, hi⟩
    · rw [hv] at hp
      exact absurd hp (Option.some_ne_none p).symm
    · exact hi
  constructor
  · intro i w p hi hp
    obtain ⟨u, hu, hrest⟩ := h.parent (hold hi hp) hp
    have hne : p ≠ k := by
      rintro rfl
      rw [hk] at hu
      exact absurd hu (Option.some_ne_none u).symm
    exact ⟨u, by rw [calls_set, if_neg hne, hu], hrest⟩
  · exact fun hi hp => h.plain (hold hi hp) hp
  · exact fun hi hp => h.latch (hold hi hp) hp
  · exact fun hi hi' hp hp' => h.single (hold hi hp) (hold hi' hp') hp hp'
  · exact fun hi hi' hp hp' => h.only (hold hi hp) (hold hi' hp') hp hp'

/-- A call that is open and stays so keeps its parent. -/
theorem Nest.advance (h : Nest life) {u v : View} (hk : life.calls k = some u)
    (hu : u.phase.isOpen = true) (hv : v.phase.isOpen = true) (hparent : v.parent = u.parent) :
    Nest (life.set k v) := by
  have hold {i p : ℕ} {w : View} (hi : (life.set k v).calls i = some w)
      (hp : w.parent = some p) : ∃ w', life.calls i = some w' ∧ w'.parent = some p ∧
        w'.phase.isOpen = w.phase.isOpen := by
    rcases calls_set_cases hi with ⟨rfl, rfl⟩ | ⟨_, hi⟩
    · exact ⟨u, hk, hparent ▸ hp, hu.trans hv.symm⟩
    · exact ⟨w, hi, hp, rfl⟩
  constructor
  · intro i w p hi hp
    obtain ⟨w', hi', hp', hopen⟩ := hold hi hp
    obtain ⟨cp, hcp, hrest⟩ := h.parent hi' hp'
    exact ⟨cp, by rw [calls_set, if_neg (h.parent_ne hk hu hi' hp'), hcp], hopen ▸ hrest⟩
  · intro i w p hi hp hprobing
    rcases calls_set_cases hi with ⟨rfl, rfl⟩ | ⟨_, hi⟩
    · rw [hprobing] at hv
      exact absurd hv Bool.false_ne_true
    · exact h.plain hi hp hprobing
  · intro i w p hi hp hopen
    obtain ⟨w', hi', hp', heq⟩ := hold hi hp
    exact h.latch hi' hp' (heq.trans hopen)
  · intro i i' w w' p p' hi hi' hp hp' hopen hopen'
    obtain ⟨x, hx, hxp, hxo⟩ := hold hi hp
    obtain ⟨x', hx', hxp', hxo'⟩ := hold hi' hp'
    exact h.single hx hx' hxp hxp' (hxo.trans hopen) (hxo'.trans hopen')
  · intro i i' w w' p hi hi' hp hp'
    obtain ⟨x, hx, hxp, _⟩ := hold hi hp
    obtain ⟨x', hx', hxp', _⟩ := hold hi' hp'
    exact h.only hx hx' hxp hxp'

theorem modify_eq_set {f : View → View} {v : View} (hk : life.calls k = some v) :
    life.modify k f = life.set k (f v) := by
  simp [Lifecycle.modify, Lifecycle.set, hk]

/-- A call without a parent ends. -/
theorem Nest.leavePlain (h : Nest life) {v : View} (hk : life.calls k = some v)
    (hopen : v.phase.isOpen = true) (hparent : v.parent = none) (outcome : Outcome) :
    Nest (life.modify k (·.exit outcome)) := by
  rw [modify_eq_set hk]
  have hold {i p : ℕ} {w : View} (hi : (life.set k (v.exit outcome)).calls i = some w)
      (hp : w.parent = some p) : life.calls i = some w := by
    rcases calls_set_cases hi with ⟨_, rfl⟩ | ⟨_, hi⟩
    · exact absurd (hparent.symm.trans hp) (Option.some_ne_none p).symm
    · exact hi
  constructor
  · intro i w p hi hp
    have hi := hold hi hp
    obtain ⟨u, hu, hrest⟩ := h.parent hi hp
    exact ⟨u, by rw [calls_set, if_neg (h.parent_ne hk hopen hi hp), hu], hrest⟩
  · exact fun hi hp => h.plain (hold hi hp) hp
  · exact fun hi hp => h.latch (hold hi hp) hp
  · exact fun hi hi' hp hp' => h.single (hold hi hp) (hold hi' hp') hp hp'
  · exact fun hi hi' hp hp' => h.only (hold hi hp) (hold hi' hp') hp hp'

/-- The call of a probe ends, and its parent with it. -/
theorem Nest.leaveNested (h : Nest life) {v : View} {p : ℕ} (hk : life.calls k = some v)
    (hopen : v.phase.isOpen = true) (hparent : v.parent = some p) (outcome raised : Outcome) :
    Nest ((({ life with probing := false }).modify k (·.exit outcome)).modify p
      (·.exit raised)) := by
  obtain ⟨u, hu, huparent, hprobing⟩ := h.parent hk hparent
  rw [if_pos hopen] at hprobing
  set after := (({ life with probing := false }).modify k (·.exit outcome)).modify p
    (·.exit raised) with hafter
  -- what changed: the call of the probe, and the parent, which has no parent
  have hold {i q : ℕ} {w : View} (hi : after.calls i = some w) (hq : w.parent = some q) :
      (i = k ∧ w = v.exit outcome) ∨ (i ≠ k ∧ i ≠ p ∧ life.calls i = some w) := by
    rcases calls_modify_cases hi with ⟨rfl, x, hx, rfl⟩ | ⟨hip, hi⟩
    · rcases calls_modify_cases hx with ⟨rfl, y, hy, rfl⟩ | ⟨_, hx⟩
      · obtain rfl : v = y := Option.some.inj (hk.symm.trans hy)
        obtain rfl : v = u := Option.some.inj (hk.symm.trans hu)
        exact absurd (huparent.symm.trans hq) (Option.some_ne_none q).symm
      · obtain rfl : u = x := Option.some.inj (hu.symm.trans hx)
        exact absurd (huparent.symm.trans hq) (Option.some_ne_none q).symm
    · rcases calls_modify_cases hi with ⟨rfl, y, hy, rfl⟩ | ⟨hik, hi⟩
      · obtain rfl : v = y := Option.some.inj (hk.symm.trans hy)
        exact Or.inl ⟨rfl, rfl⟩
      · exact Or.inr ⟨hik, hip, hi⟩
  have hparentOf {i q : ℕ} {w : View} (hi : after.calls i = some w) (hq : w.parent = some q) :
      ∃ w', life.calls i = some w' ∧ w'.parent = some q ∧
        (w.phase.isOpen = true → i ≠ k ∧ w' = w) := by
    rcases hold hi hq with ⟨rfl, rfl⟩ | ⟨hik, _, hi⟩
    · exact ⟨v, hk, hq, fun hfalse => absurd hfalse Bool.false_ne_true⟩
    · exact ⟨w, hi, hq, fun _ => ⟨hik, rfl⟩⟩
  have hclosed {i q : ℕ} {w : View} (hi : after.calls i = some w) (hq : w.parent = some q) :
      w.phase.isOpen = false := by
    by_contra hw
    obtain ⟨w', hi', hq', hsame⟩ := hparentOf hi hq
    obtain ⟨hik, rfl⟩ := hsame (Bool.not_eq_false _ ▸ hw)
    exact hik (h.single hi' hk hq' hparent (Bool.not_eq_false _ ▸ hw) hopen)
  constructor
  · intro i w q hi hq
    have hw := hclosed hi hq
    rw [hw]
    by_cases hqp : q = p
    · subst hqp
      have hself : q ≠ k := h.parent_ne hk hopen hk hparent
      refine ⟨u.exit raised, ?_, huparent, rfl⟩
      rw [hafter, calls_modify, if_pos rfl, calls_modify, if_neg hself]
      exact congrArg (Option.map _) hu
    · obtain ⟨w', hi', hq', _⟩ := hparentOf hi hq
      have hik : i ≠ k := by
        rintro rfl
        obtain rfl : v = w' := Option.some.inj (hk.symm.trans hi')
        exact hqp (Option.some.inj (hq'.symm.trans hparent))
      rcases hold hi hq with ⟨heq, _⟩ | ⟨_, _, hi⟩
      · exact absurd heq hik
      · obtain ⟨x, hx, hxparent, hphase⟩ := h.parent hi hq
        rw [hw] at hphase
        refine ⟨x, ?_, hxparent, hphase⟩
        rw [hafter, calls_modify, if_neg hqp, calls_modify, if_neg (h.parent_ne hk hopen hi hq)]
        exact hx
  · intro i w q hi hq hphase
    rcases hold hi hq with ⟨_, rfl⟩ | ⟨_, _, hi⟩
    · cases hphase
    · exact h.plain hi hq hphase
  · intro i w q hi hq hw
    rw [hclosed hi hq] at hw
    exact absurd hw Bool.false_ne_true
  · intro i i' w w' q q' hi hi' hq hq' hw
    rw [hclosed hi hq] at hw
    exact absurd hw Bool.false_ne_true
  · intro i i' w w' q hi hi' hq hq'
    obtain ⟨x, hx, hxq, _⟩ := hparentOf hi hq
    obtain ⟨x', hx', hxq', _⟩ := hparentOf hi' hq'
    exact h.only hx hx' hxq hxq'

/-- A call turns to its probe. -/
theorem Nest.probe (h : Nest life) {v : View} {child : ℕ} (hk : life.calls k = some v)
    (hphase : v.phase = .waiting) (hchild : life.calls child = none)
    (hlatch : life.probing = false) (ticket : Option ℕ) :
    Nest ((Move.probe k child ticket).apply life) := by
  have hopen : v.phase.isOpen = true := by rw [hphase]; rfl
  have hclosed {i p : ℕ} {w : View} (hi : life.calls i = some w) (hp : w.parent = some p) :
      w.phase.isOpen = false := by
    by_contra hw
    have hon := h.latch hi hp (Bool.not_eq_false _ ▸ hw)
    rw [hlatch] at hon
    exact Bool.false_ne_true hon
  have hplain : v.parent = none := by
    cases hp : v.parent with
    | none => rfl
    | some p =>
      rw [hclosed hk hp] at hopen
      exact absurd hopen Bool.false_ne_true
  have hne : k ≠ child := by
    rintro rfl
    rw [hk] at hchild
    exact Option.some_ne_none v hchild
  set after := (Move.probe k child ticket).apply life with hafter
  have hold {i p : ℕ} {w : View} (hi : after.calls i = some w) (hp : w.parent = some p) :
      (i = child ∧ w = probeView k ticket) ∨ (i ≠ child ∧ i ≠ k ∧ life.calls i = some w) := by
    rcases calls_set_cases hi with heq | ⟨hic, hi⟩
    · exact Or.inl heq
    · rcases calls_modify_cases hi with ⟨rfl, x, hx, rfl⟩ | ⟨hik, hi⟩
      · obtain rfl : v = x := Option.some.inj (hk.symm.trans hx)
        exact absurd (hplain.symm.trans hp) (Option.some_ne_none p).symm
      · exact Or.inr ⟨hic, hik, hi⟩
  constructor
  · intro i w p hi hp
    rcases hold hi hp with ⟨rfl, rfl⟩ | ⟨_, _, hi⟩
    · obtain rfl : k = p := Option.some.inj hp
      refine ⟨{ v with phase := .probing }, ?_, hplain, ?_⟩
      · rw [hafter, Move.apply, calls_set, if_neg hne, calls_modify, if_pos rfl]
        exact congrArg (Option.map _) hk
      · cases ticket <;> rfl
    · obtain ⟨u, hu, hrest⟩ := h.parent hi hp
      have hpc : p ≠ child := by
        rintro rfl
        rw [hu] at hchild
        exact Option.some_ne_none u hchild
      refine ⟨u, ?_, hrest⟩
      rw [hafter, Move.apply, calls_set, if_neg hpc, calls_modify,
        if_neg (h.parent_ne hk hopen hi hp)]
      exact hu
  · intro i w p hi hp
    rcases hold hi hp with ⟨_, rfl⟩ | ⟨_, _, hi⟩
    · cases ticket <;> exact CallPhase.noConfusion
    · exact h.plain hi hp
  · exact fun _ _ _ => rfl
  · intro i i' w w' p p' hi hi' hp hp' hw hw'
    rcases hold hi hp with ⟨rfl, _⟩ | ⟨_, _, hi⟩
    · rcases hold hi' hp' with ⟨rfl, _⟩ | ⟨_, _, hi'⟩
      · rfl
      · rw [hclosed hi' hp'] at hw'
        exact absurd hw' Bool.false_ne_true
    · rw [hclosed hi hp] at hw
      exact absurd hw Bool.false_ne_true
  · intro i i' w w' p hi hi' hp hp'
    rcases hold hi hp with ⟨rfl, rfl⟩ | ⟨_, _, hi⟩
    · rcases hold hi' hp' with ⟨rfl, _⟩ | ⟨_, _, hi'⟩
      · rfl
      · exact absurd (Option.some.inj hp).symm (h.parent_ne hk hopen hi' hp')
    · rcases hold hi' hp' with ⟨_, rfl⟩ | ⟨_, _, hi'⟩
      · exact absurd (Option.some.inj hp').symm (h.parent_ne hk hopen hi hp)
      · exact h.only hi hi' hp hp'

/-- Every allowed move keeps the invariant. -/
theorem Nest.apply (h : Nest life) {m : Move} (hm : m.Allowed life) : Nest (m.apply life) := by
  cases m with
  | quiet => exact h
  | create k v =>
    obtain ⟨hopen, ⟨hk, hv⟩ | ⟨u, hk, hu, _, _, hparent⟩⟩ := hm
    · exact h.start hk hv
    · exact h.advance hk (by rw [hu]; rfl) hopen hparent
  | sent k =>
    obtain ⟨v, hk, hphase⟩ := hm
    rw [Move.apply, modify_eq_set hk]
    exact h.advance hk (by rw [hphase]; rfl) rfl rfl
  | leave k outcome =>
    obtain ⟨v, hk, hopen⟩ := hm
    simp only [Move.apply, hk, Option.bind_some]
    cases hparent : v.parent with
    | none => exact h.leavePlain hk hopen hparent outcome
    | some p => exact h.leaveNested hk hopen hparent outcome outcome.raised
  | probe k child ticket =>
    obtain ⟨⟨v, hk, hphase⟩, hchild, hlatch⟩ := hm
    exact h.probe hk hphase hchild hlatch ticket

end Nest

theorem nest_init : Nest (lifecycle init) := by
  constructor <;> simp [lifecycle, init]

/-- Every slice keeps the invariant. -/
theorem nest_apply {s : State} {e : Event} (h : Nest (lifecycle s)) (he : enabled s e = true) :
    Nest (lifecycle (apply s e)) :=
  lifecycle_apply s e ▸ h.apply (move_allowed he)

/-- Calls and probes nest in every run. -/
theorem nest_of_reachable {s : State} (h : machine.Reachable init s) : Nest (lifecycle s) := by
  induction h with
  | refl => exact nest_init
  | tail _ _ hstep ih =>
    obtain ⟨he, rfl⟩ := machine_step_eq_some_iff.mp hstep
    exact nest_apply ih he

end Transport
