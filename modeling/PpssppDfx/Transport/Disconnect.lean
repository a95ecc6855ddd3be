import PpssppDfx.Transport.Tickets

/-!
# Calls and lost connections

A receive loop that meets `ConnectionClosed`, and `close()`, fail every pending
future. The other ends of a loop do not: the state check at its head, an unexpected
exception, a cancellation by `connect()`. Nor does `connect()` when it gives up a
socket. `cuts` names these steps. A call that awaits its reply when one of them
happens is stranded until its own timeout.

The state records in `severed` the ticket counter at the moment a socket's replies
became unroutable. For a loop that `close()` cancelled this is the slice of `close()`
that fails the futures.

## Main results

* `noneStranded_of_reaches` — no call is stranded in a run that cuts no awaited reply
* `stranded_after_state_check` — a run of the code that strands a call
-/

set_option autoImplicit false

namespace Transport

open Python Semantics

/-- Call `k` awaits the reply to ticket `n` on the socket. -/
def WaitsOn (s : State) (k n socket : ℕ) : Prop :=
  ∃ c, s.calls k = some c ∧ c.live = true ∧ c.future.isWaiting = true ∧
    c.ticket = some n ∧ c.socket = some socket

/-- No call awaits a reply that was registered before the replies of its socket became
unroutable. -/
def NoneStranded (s : State) : Prop :=
  ∀ socket m k n, s.severed socket = some m → WaitsOn s k n socket → m < n

/-- The socket whose replies a step cuts off without failing the calls that await them. -/
def cuts (s : State) : Event → Option ℕ
  | .loopStart l => if isConnected s then none else some l
  | .recvTimeout l => if isConnected s then none else some l
  | .recvFrame l _ => if isConnected s then none else some l
  | .recvFailed l => some l
  | .loopCancelled l => if (s.loops l).any (fun loop => loop.closeAwaits) then none else some l
  | .connectOldClosed _ => s.ws
  | .connectOpened _ _ => s.ws
  | .connectUnselectedClosed _ => s.ws
  | _ => none

/-- The step hands over the reply to ticket `n`. -/
def answers (e : Event) (n : ℕ) : Prop :=
  ∃ l data, e = .recvFrame l (some (.dict data)) ∧ Carries data n

/-- A step that cuts a socket off only when no other call awaits a reply on it. -/
def CutsQuietly (s : State) (e : Event) : Prop :=
  ∀ socket, cuts s e = some socket → ∀ k n, WaitsOn s k n socket → answers e n

/-! ## Which calls await a reply -/

section Waits

variable {s t u : State} {k n socket : ℕ}

/-- Calls that await a reply in `t` did so in `s`, or took their ticket since. -/
def Grows (s t : State) : Prop :=
  s.ticketCounter ≤ t.ticketCounter ∧
    ∀ k n socket, WaitsOn t k n socket → WaitsOn s k n socket ∨ s.ticketCounter < n

theorem Grows.of_ledger (h : ledger t = ledger s) : Grows s t := by
  simp only [ledger, Ledger.mk.injEq] at h
  obtain ⟨hcounter, _, _, hcalls⟩ := h
  refine ⟨Nat.le_of_eq hcounter.symm, fun k n socket hw => Or.inl ?_⟩
  rwa [WaitsOn, hcalls] at hw

theorem Grows.trans (hst : Grows s t) (htu : Grows t u) : Grows s u := by
  refine ⟨Nat.le_trans hst.1 htu.1, fun k n socket hw => ?_⟩
  rcases htu.2 k n socket hw with hw | hlt
  · exact hst.2 k n socket hw
  · exact Or.inr (Nat.lt_of_le_of_lt hst.1 hlt)

/-- A change of one record that starts no wait. -/
theorem Grows.modifyCall (s : State) (k : ℕ) (f : Call → Call)
    (hf : ∀ c, s.calls k = some c → (f c).live = true → (f c).future.isWaiting = true →
      c.live = true ∧ c.future.isWaiting = true ∧ (f c).ticket = c.ticket ∧
        (f c).socket = c.socket) :
    Grows s (modifyCall s k f) := by
  refine ⟨Nat.le_refl _, fun i n socket hw => Or.inl ?_⟩
  obtain ⟨c', hc', hlive, hwait, hn, hsocket⟩ := hw
  by_cases hi : i = k
  · subst hi
    obtain ⟨c, hc, rfl⟩ : ∃ c, s.calls i = some c ∧ f c = c' := by
      simpa [Transport.modifyCall] using hc'
    obtain ⟨hlive', hwait', hticket, hsame⟩ := hf c hc hlive hwait
    exact ⟨c, hc, hlive', hwait', hticket ▸ hn, hsame ▸ hsocket⟩
  · refine ⟨c', ?_, hlive, hwait, hn, hsocket⟩
    simpa [Transport.modifyCall, Function.update_of_ne hi] using hc'

/-- A change of the phase to one that is not awaiting starts no wait. -/
theorem Grows.setPhase (s : State) (k : ℕ) (phase : CallPhase)
    (hphase : phase.isSending = false ∧ phase.isWaiting = false) :
    Grows s (Transport.modifyCall s k fun c => { c with phase := phase }) := by
  refine Grows.modifyCall s k _ fun c _ hlive _ => ?_
  simp [Call.live, hphase] at hlive

theorem Grows.popOwn (s : State) (k : ℕ) : Grows s (popOwn s k) := by
  unfold Transport.popOwn
  split
  · exact ⟨Nat.le_refl _, fun _ _ _ hw => Or.inl hw⟩
  · exact Grows.of_ledger rfl

theorem Grows.exitCall (s : State) (k : ℕ) (outcome : Outcome) :
    Grows s (exitCall s k outcome) := by
  unfold Transport.exitCall
  split
  · exact Grows.setPhase s k _ ⟨rfl, rfl⟩
  · refine Grows.trans ?_ (Grows.setPhase _ _ _ ⟨rfl, rfl⟩)
    exact Grows.setPhase { s with probingStepping := false } k _ ⟨rfl, rfl⟩

theorem Grows.register (s : State) (k : ℕ) (event : String) (parent : Option ℕ) :
    Grows s (register s k event parent) := by
  refine ⟨Nat.le_succ _, fun i n socket hw => ?_⟩
  obtain ⟨c, hc, hlive, hwait, hn, hsocket⟩ := hw
  by_cases hi : i = k
  · subst hi
    right
    simp only [Transport.register, setCall, Function.update_self, Option.some.injEq] at hc
    subst hc
    obtain rfl : s.ticketCounter + 1 = n := by simpa using hn
    exact Nat.lt_succ_self _
  · left
    refine ⟨c, ?_, hlive, hwait, hn, hsocket⟩
    simpa [Transport.register, setCall, Function.update_of_ne hi] using hc

theorem Grows.enterCall (s : State) (k : ℕ) (event : String) (parent : Option ℕ) :
    Grows s (enterCall s k event parent) := by
  unfold Transport.enterCall
  split
  · exact Grows.register s k event parent
  · refine ⟨Nat.le_refl _, fun i n socket hw => Or.inl ?_⟩
    obtain ⟨c, hc, hlive, hwait, hn, hsocket⟩ := hw
    by_cases hi : i = k
    · subst hi
      simp only [setCall, Function.update_self, Option.some.injEq] at hc
      subst hc
      simp [unregistered] at hn
    · refine ⟨c, ?_, hlive, hwait, hn, hsocket⟩
      simpa [setCall, Function.update_of_ne hi] using hc

theorem Grows.wakeCall (s : State) (k child : ℕ) : Grows s (wakeCall s k child) := by
  have hexit (outcome : Outcome) :
      Grows s (Transport.exitCall (Transport.popOwn s k) k outcome) :=
    (Grows.popOwn s k).trans (Grows.exitCall _ k outcome)
  unfold Transport.wakeCall
  split
  · exact Grows.of_ledger rfl
  · split
    · exact hexit _
    · unfold timeOut
      simp only
      split
      · exact hexit _
      · refine (Grows.popOwn s k).trans (Grows.trans ?_ (Grows.enterCall _ _ _ _))
        exact Grows.setPhase { Transport.popOwn s k with probingStepping := true } k _ ⟨rfl, rfl⟩
    · exact Grows.exitCall s k _
    · exact hexit _
    · exact hexit _
    · exact hexit _
    · exact Grows.of_ledger rfl

/-- Resolving a future starts no wait. -/
theorem Grows.resolve (s : State) (k : ℕ) (future : Future) (hf : future.isWaiting = false) :
    Grows s (Transport.modifyCall s k fun c => c.resolve future) := by
  refine Grows.modifyCall s k _ fun c _ hlive hwait => ?_
  -- a future that was done stays as it is, and does not wait
  cases hw : c.future.isWaiting with
  | true =>
    rw [Call.resolve_of_waiting hw] at hwait
    simp [hf] at hwait
  | false =>
    rw [Call.resolve_of_done hw, hw] at hwait
    exact absurd hwait (by decide)

theorem Grows.dispatch (s : State) (raw : Option Value) : Grows s (dispatch s raw) := by
  unfold Transport.dispatch
  split
  · split
    · exact Grows.of_ledger rfl
    · exact Grows.of_ledger (ledger_queueFrame s _)
    · refine Grows.trans (t := popTicket s _) ?_ (Grows.resolve _ _ _ ?_)
      · exact ⟨Nat.le_refl _, fun _ _ _ hw => Or.inl hw⟩
      · split <;> rfl
  · exact Grows.of_ledger rfl

/-- After the pending table was failed no call awaits a reply. -/
theorem TicketInv.not_waitsOn_failPending (h : TicketInv s) (message : String) :
    ¬ WaitsOn (Transport.failPending s message) k n socket := by
  rintro ⟨c', hc', hlive, hwait, hn, _⟩
  rw [Transport.failPending, failEntries_calls] at hc'
  split at hc'
  · obtain ⟨c, _, rfl⟩ := Option.map_eq_some_iff.mp hc'
    cases hw : c.future.isWaiting with
    | true =>
      rw [Call.resolve_of_waiting hw] at hwait
      simp [Future.isWaiting] at hwait
    | false =>
      rw [Call.resolve_of_done hw] at hwait
      exact absurd (hw.symm.trans hwait) (by decide)
  · rename_i hmem
    exact hmem (List.mem_map.mpr ⟨_, h.registered hc' hlive hwait hn, rfl⟩)

theorem TicketInv.grows_failPending (h : TicketInv s) (message : String) :
    Grows s (Transport.failPending s message) := by
  refine ⟨?_, fun k n socket hw => absurd hw (h.not_waitsOn_failPending message)⟩
  have hcounter : (Transport.failPending s message).ticketCounter = s.ticketCounter := by
    rw [Transport.failPending, failEntries_frame]
  exact Nat.le_of_eq hcounter.symm

/-- The call that a frame answers no longer awaits its reply. -/
theorem TicketInv.not_waitsOn_dispatch (h : TicketInv s) {data : Dict} (hdata : Carries data n) :
    ¬ WaitsOn (Transport.dispatch s (some (.dict data))) k n socket := by
  intro hw
  have hinv := h.dispatch (some (.dict data))
  obtain ⟨c', hc', hlive, hwait, hn, _⟩ := hw
  have hmem := hinv.registered hc' hlive hwait hn
  revert hmem
  simp only [Transport.dispatch, pendingKey, show frameTicket data = _ from hdata]
  -- a ticket has a name, so it is looked up in the table
  have hname : ticketName n ≠ "" := by
    intro heq
    have := congrArg String.length heq
    simp [ticketName] at this
  simp only [hname, if_false]
  cases hfind : s.pending.find? fun entry => entry.1 == ticketName n with
  | none =>
    intro hmem
    have hpending : (queueFrame s data).pending = s.pending :=
      congrArg Ledger.pending (ledger_queueFrame s data)
    rw [hpending] at hmem
    have := List.find?_eq_none.mp hfind _ hmem
    simp at this
  | some e =>
    have hname : e.1 = ticketName n := by simpa using List.find?_some hfind
    simp [modifyCall, popTicket, hname]

end Waits

/-! ## Sockets and severed replies -/

section Severed

variable {s t : State}

/-- Sockets and severed replies: slices of calls leave them alone. -/
def wiring (s : State) : Option ℕ × (ℕ → SocketState) × (ℕ → Option ℕ) :=
  (s.ws, s.sockets, s.severed)

@[simp] theorem wiring_popOwn (s : State) (k : ℕ) : wiring (popOwn s k) = wiring s := by
  unfold popOwn
  split <;> rfl

@[simp] theorem wiring_exitCall (s : State) (k : ℕ) (outcome : Outcome) :
    wiring (exitCall s k outcome) = wiring s := by
  unfold exitCall
  split <;> rfl

@[simp] theorem wiring_enterCall (s : State) (k : ℕ) (event : String) (parent : Option ℕ) :
    wiring (enterCall s k event parent) = wiring s := by
  unfold enterCall
  split <;> rfl

@[simp] theorem wiring_wakeCall (s : State) (k child : ℕ) :
    wiring (wakeCall s k child) = wiring s := by
  unfold wakeCall
  split
  · rfl
  · split
    · simp
    · unfold timeOut
      simp only
      split
      · simp
      · exact (wiring_enterCall _ _ _ _).trans (wiring_popOwn s k)
    all_goals simp

@[simp] theorem wiring_dispatch (s : State) (raw : Option Value) :
    wiring (dispatch s raw) = wiring s := by
  unfold dispatch
  split
  · split
    · rfl
    · unfold queueFrame
      simp only
      split <;> rfl
    · rfl
  · rfl

@[simp] theorem wiring_failPending (s : State) (message : String) :
    wiring (failPending s message) = wiring s := by
  rw [failPending, failEntries_frame]
  rfl

theorem dispatch_ticketCounter (s : State) (raw : Option Value) :
    (dispatch s raw).ticketCounter = s.ticketCounter := by
  unfold dispatch
  split
  · split
    · rfl
    · exact congrArg Ledger.ticketCounter (ledger_queueFrame s _)
    · rfl
  · rfl

theorem connectDrop_severed (s : State) (j : ℕ) : (connectDrop s j).severed = s.severed := by
  unfold connectDrop
  split <;> rfl

theorem connectBegin_severed (s : State) (j : ℕ) : (connectBegin s j).severed = s.severed := by
  unfold connectBegin
  split
  · split
    · rfl
    · exact connectDrop_severed s j
  · exact connectDrop_severed s j

theorem isConnected_congr (h : wiring t = wiring s) : isConnected t = isConnected s := by
  simp only [wiring, Prod.mk.injEq] at h
  simp only [isConnected, h]

theorem severed_congr (h : wiring t = wiring s) : t.severed = s.severed :=
  congrArg (fun w => w.2.2) h

/-- No call is stranded, and no record of a lost socket lies in the future. -/
structure Unstranded (s : State) : Prop where
  bounded : ∀ {socket m}, s.severed socket = some m → m ≤ s.ticketCounter
  stranded : NoneStranded s

/-- A step that leaves the severed sockets alone strands nobody. -/
theorem Unstranded.grow (h : Unstranded s) (hgrows : Grows s t)
    (hsevered : t.severed = s.severed) : Unstranded t := by
  constructor
  · intro socket m hm
    rw [hsevered] at hm
    exact Nat.le_trans (h.bounded hm) hgrows.1
  · intro socket m k n hm hw
    rw [hsevered] at hm
    rcases hgrows.2 k n socket hw with hw | hlt
    · exact h.stranded socket m k n hm hw
    · exact Nat.lt_of_le_of_lt (h.bounded hm) hlt

/-- Severing a socket that no call awaits strands nobody. -/
theorem Unstranded.sever (h : Unstranded s) (socket : Option ℕ)
    (hquiet : ∀ c, socket = some c → ∀ k n, ¬ WaitsOn s k n c) :
    Unstranded (sever s socket) := by
  cases socket with
  | none => exact h
  | some c =>
    have hcases {c' m : ℕ} (hm : (Transport.sever s (some c)).severed c' = some m) :
        (c' = c ∧ m = s.ticketCounter) ∨ s.severed c' = some m := by
      by_cases hc : c' = c
      · subst hc
        left
        simpa [Transport.sever, eq_comm] using hm
      · right
        simpa [Transport.sever, Function.update_of_ne hc] using hm
    constructor
    · intro c' m hm
      rcases hcases hm with ⟨_, rfl⟩ | hm
      · exact Nat.le_refl _
      · exact h.bounded hm
    · intro c' m k n hm hw
      rcases hcases hm with ⟨rfl, _⟩ | hm
      -- the socket that is severed, and one severed before
      · exact absurd hw (hquiet _ rfl k n)
      · exact h.stranded c' m k n hm hw

/-- A change of neither the ledger nor the severed sockets strands nobody. -/
theorem Unstranded.congr (h : Unstranded s) (hledger : ledger t = ledger s)
    (hsevered : t.severed = s.severed) : Unstranded t :=
  h.grow (Grows.of_ledger hledger) hsevered

/-- The head of the receive loop strands nobody when no call awaits its socket. -/
theorem Unstranded.loopHead (h : Unstranded s) (l : ℕ)
    (hquiet : isConnected s = false → ∀ k n, ¬ WaitsOn s k n l) :
    Unstranded (loopHead s l) := by
  have hleave (hdown : isConnected s = false) :
      Unstranded (Transport.sever (endLoop s l .stateCheck) (some l)) := by
    have hend : Unstranded (endLoop s l .stateCheck) := h.congr rfl rfl
    refine hend.sever _ ?_
    rintro c ⟨⟩
    exact hquiet hdown
  unfold Transport.loopHead
  split
  · rename_i socket hws
    split
    · exact h.congr rfl rfl
    · rename_i hstate
      exact hleave (by simpa [isConnected, hws] using hstate)
  · rename_i hws
    exact hleave (by simp [isConnected, hws])

/-- Closing fails every awaited reply before it severs the socket. -/
theorem Unstranded.closeFail (h : Unstranded s) (hinv : TicketInv s) (i : ℕ) (l : Option ℕ) :
    Unstranded (closeFail s i l) := by
  have hfail := h.grow (hinv.grows_failPending "WebSocket closed")
    (severed_congr (wiring_failPending s _))
  have hsever := hfail.sever l fun _ _ _ _ => hinv.not_waitsOn_failPending "WebSocket closed"
  unfold Transport.closeFail
  simp only
  split
  · split <;> exact hsever.congr rfl rfl
  · exact hsever.congr rfl rfl

theorem Unstranded.closeAfterLoop (h : Unstranded s) (hinv : TicketInv s) (i l : ℕ)
    (cause : LoopEnd) : Unstranded (closeAfterLoop s i l cause) := by
  unfold Transport.closeAfterLoop
  split
  · exact h.congr rfl rfl
  · have h' : Unstranded { s with recvTask := none } := h.congr rfl rfl
    exact h'.closeFail (hinv.congr rfl) i (some l)

/-- One step that cuts no awaited reply strands nobody. -/
theorem unstranded_apply {e : Event} (h : Unstranded s) (hinv : TicketInv s)
    (he : enabled s e = true) (hquiet : CutsQuietly s e) : Unstranded (apply s e) := by
  -- A step that answers no ticket cuts only sockets that no call awaits.
  have hnone (he : ∀ n, ¬ answers e n) (socket : ℕ) (hcut : cuts s e = some socket) (k n : ℕ) :
      ¬ WaitsOn s k n socket := fun hw => he n (hquiet socket hcut k n hw)
  cases e with
  | callStart k event =>
    exact h.grow (Grows.enterCall s k event none) (severed_congr (wiring_enterCall s k event none))
  | reconnected k =>
    simp only [apply]
    split
    · split
      · exact h.grow (Grows.register s k _ _) rfl
      · exact h.grow (Grows.exitCall s k _) (severed_congr (wiring_exitCall s k _))
    · exact h
  | reconnectFailed k cancelled =>
    exact h.grow (Grows.exitCall s k _) (severed_congr (wiring_exitCall s k _))
  | sent k =>
    refine h.grow (Grows.modifyCall s k _ fun c hc _ hwait => ?_) rfl
    -- a call that waits now was sending before, under the same ticket
    have hsending : c.phase.isSending = true := by simpa [enabled, hc] using he
    exact ⟨by simp [Call.live, hsending], hwait, rfl, rfl⟩
  | sendFailed k cancelled =>
    exact h.grow ((Grows.popOwn s k).trans (Grows.exitCall _ k _))
      (severed_congr ((wiring_exitCall _ k _).trans (wiring_popOwn s k)))
  | interrupt k i =>
    refine h.grow (Grows.modifyCall s k _ fun c _ _ hwait => ?_) rfl
    exfalso
    cases hfuture : c.future <;>
      simp [Call.interrupted, hfuture, Future.isWaiting] at hwait
  | wake k child =>
    exact h.grow (Grows.wakeCall s k child) (severed_congr (wiring_wakeCall s k child))
  | fireAndForget =>
    exact h.grow ⟨Nat.le_succ _, fun _ _ _ hw => Or.inl hw⟩ rfl
  | loopStart l =>
    refine h.loopHead l fun hdown => hnone ?_ l (by simp [cuts, hdown])
    simp [answers]
  | recvTimeout l =>
    refine h.loopHead l fun hdown => hnone ?_ l (by simp [cuts, hdown])
    simp [answers]
  | recvFrame l raw =>
    have hdispatch := h.grow (Grows.dispatch s raw) (severed_congr (wiring_dispatch s raw))
    refine hdispatch.loopHead l fun hdown k n hw => ?_
    rw [isConnected_congr (wiring_dispatch s raw)] at hdown
    have hold : WaitsOn s k n l := by
      rcases (Grows.dispatch s raw).2 k n l hw with hw | hlt
      · exact hw
      · obtain ⟨c, hc, _, _, hn, _⟩ := hw
        have hle := (hinv.dispatch raw).issued hc hn
        rw [dispatch_ticketCounter] at hle
        omega
    obtain ⟨_, data, heq, hdata⟩ := hquiet l (by simp [cuts, hdown]) k n hold
    obtain ⟨_, rfl⟩ : _ ∧ raw = some (.dict data) := by simpa using heq
    exact hinv.not_waitsOn_dispatch hdata hw
  | recvClosed l =>
    have hfail := h.grow (hinv.grows_failPending "PPSSPP WebSocket disconnected")
      (severed_congr (wiring_failPending s _))
    have hend : Unstranded
        (endLoop (failPending s "PPSSPP WebSocket disconnected") l .connectionClosed) :=
      hfail.congr rfl rfl
    refine hend.sever (some l) fun _ _ _ _ => ?_
    exact hinv.not_waitsOn_failPending "PPSSPP WebSocket disconnected"
  | recvFailed l =>
    have hend : Unstranded (endLoop s l .exception) := h.congr rfl rfl
    refine hend.sever (some l) ?_
    rintro c ⟨⟩
    exact hnone (by simp [answers]) l rfl
  | loopCancelled l =>
    have hend : Unstranded (endLoop s l .cancelled) := h.congr rfl rfl
    simp only [apply]
    split
    · exact hend
    · rename_i hclose
      refine hend.sever _ ?_
      rintro c ⟨⟩
      exact hnone (by simp [answers]) l (by simp only [cuts, hclose]; rfl)
  | socketState socket state => exact h.congr rfl rfl
  | connectBegin j => exact h.congr (ledger_connectBegin s j) (connectBegin_severed s j)
  | connectLoopEnded j =>
    exact h.congr (ledger_connectDrop { s with recvTask := none } j) (connectDrop_severed _ j)
  | connectOldClosed j =>
    have hdrop := h.sever s.ws fun c hc => hnone (by simp [answers]) c hc
    exact hdrop.congr rfl rfl
  | connectOpened j selected =>
    have hdrop := h.sever s.ws fun c hc => hnone (by simp [answers]) c hc
    cases selected <;> exact hdrop.congr rfl rfl
  | connectUnselectedClosed j =>
    have hdrop := h.sever s.ws fun c hc => hnone (by simp [answers]) c hc
    exact hdrop.congr rfl rfl
  | connectRaised j => exact h.congr rfl rfl
  | closeBegin i =>
    simp only [apply, closeBegin]
    split
    · split
      · exact h.closeAfterLoop hinv i _ _
      · exact h.congr rfl rfl
    · exact h.closeFail hinv i none
  | closeLoopEnded i =>
    simp only [apply]
    split
    · exact h.closeAfterLoop hinv i _ _
    · exact h
  | closeSocketClosed i raised => exact h.congr rfl rfl

end Severed

/-! ## Runs -/

/-- In a run whose steps cut no awaited reply, no call is stranded. -/
theorem noneStranded_of_reaches {s : State} (h : machine.Reaches CutsQuietly init s) :
    NoneStranded s := by
  have hinit : TicketInv init ∧ Unstranded init :=
    ⟨ticketInv_init, ⟨by simp [init], by simp [NoneStranded, init]⟩⟩
  have hrun : TicketInv s ∧ Unstranded s := by
    refine h.invariant (P := fun t => TicketInv t ∧ Unstranded t) hinit ?_
    rintro t e u ⟨hinv, ht⟩ hquiet hstep
    obtain ⟨he, rfl⟩ := machine_step_eq_some_iff.mp hstep
    exact ⟨ticketInv_apply hinv he, unstranded_apply ht hinv he hquiet⟩
  exact hrun.2.stranded

/-- The peer drops the connection while a call awaits its reply. -/
def droppedRun : List Event :=
  [.connectBegin 0, .connectOpened 0 true, .loopStart 0,
   .callStart 0 "cpu.status", .sent 0, .socketState 0 .closed, .recvClosed 0]

/-- A loop that meets `ConnectionClosed` strands nobody, whatever is pending. -/
theorem noneStranded_droppedRun :
    ∃ s, machine.run init droppedRun = some s ∧ s.severed 0 = some 1 ∧ NoneStranded s := by
  refine ⟨_, rfl, rfl, noneStranded_of_reaches ?_⟩
  have hrun : machine.Reaches (fun s e => cuts s e = none) init _ :=
    Machine.reaches_of_runWith droppedRun rfl
  exact hrun.mono fun s e hcuts socket hsome => by simp [hcuts] at hsome

/-- The peer answers the first of two calls and closes; the loop handles the answer and
then leaves through its state check. -/
def stateCheckRun : List Event :=
  [.connectBegin 0, .connectOpened 0 true, .loopStart 0,
   .callStart 0 "cpu.status", .callStart 1 "cpu.getReg", .sent 0, .sent 1,
   .socketState 0 .closed,
   .recvFrame 0 (some (.dict [(.str "ticket", .str "t1"), (.str "stepping", .bool true)]))]

/-- The second call of that run is stranded. -/
theorem stranded_after_state_check :
    ∃ s, machine.Reachable init s ∧ ¬ NoneStranded s := by
  refine ⟨_, Machine.reachable_of_run stateCheckRun rfl, fun hnone => ?_⟩
  have hlt := hnone 0 2 1 2 rfl ⟨_, rfl, rfl, rfl, rfl, rfl⟩
  omega

end Transport
