import PpssppDfx.Transport.Model

/-!
# Ticket matching

Tickets are counter values that are never given out twice, an entry of the pending
table belongs to one call that is still inside its guarded awaits, and a future is
resolved together with the removal of its entry. These facts make up `TicketInv`.
They are kept by every slice of every task, so the receive loop can only hand a
frame to the call whose ticket the frame carries.

## Main results

* `ticketInv_apply` — every slice keeps `TicketInv`
* `ticketInv_of_reachable` — the invariant of every run
* `tickets_matched` — what it says about tickets, frames and exits
-/

set_option autoImplicit false

namespace Transport

open Python Semantics

/-- Distinct counter values have distinct tickets. -/
theorem ticketName_injective {m n : ℕ} (h : ticketName m = ticketName n) : m = n := by
  have hrepr : (Nat.repr m).toList = (Nat.repr n).toList :=
    congrArg String.toList ((String.append_right_inj "t").mp h)
  rw [Nat.toList_repr, Nat.toList_repr] at hrepr
  calc m = Nat.ofDigitChars 10 (Nat.toDigits 10 m) 0 :=
        (Nat.ofDigitChars_toDigits (by decide) (by decide)).symm
    _ = Nat.ofDigitChars 10 (Nat.toDigits 10 n) 0 := by rw [hrepr]
    _ = n := Nat.ofDigitChars_toDigits (by decide) (by decide)

/-- The frame carries the ticket with this counter value. -/
def Carries (data : Dict) (n : ℕ) : Prop := frameTicket data = some (.str (ticketName n))

/-- The call is past its guarded awaits: it probes or has exited. -/
def Call.retired (c : Call) : Prop := c.live = false ∧ c.phase.isReconnecting = false

/-- The facts about one call record that do not mention other parts of the state. -/
structure Call.Consistent (c : Call) : Prop where
  answered : ∀ {data}, c.future = .result data ∨ c.future = .peerError data →
    ∃ n, c.ticket = some n ∧ Carries data n
  counted : c.resolutions = if c.future.isResolved then 1 else 0
  returned : ∀ {data}, c.phase = .exited (.returned data) → c.future = .result data
  raised : ∀ {data}, c.phase = .exited (.peerError data) → c.future = .peerError data
  ticketed : c.live = true → c.ticket.isSome = true

/-- What holds of tickets, the pending table and the calls between two slices. -/
structure TicketInv (s : State) : Prop where
  consistent : ∀ {k c}, s.calls k = some c → c.Consistent
  issued : ∀ {k c n}, s.calls k = some c → c.ticket = some n → n ≤ s.ticketCounter
  unique : ∀ {k k' c c' n}, s.calls k = some c → s.calls k' = some c' →
    c.ticket = some n → c'.ticket = some n → k = k'
  keys : (s.pending.map Prod.fst).Nodup
  entry : ∀ {t k}, (t, k) ∈ s.pending → ∃ c n, s.calls k = some c ∧ c.ticket = some n ∧
    t = ticketName n ∧ c.live = true ∧ c.future.isResolved = false
  registered : ∀ {k c n}, s.calls k = some c → c.live = true → c.future.isWaiting = true →
    c.ticket = some n → (ticketName n, k) ∈ s.pending
  parent : ∀ {k c p}, s.calls k = some c → c.parent = some p →
    ∃ cp, s.calls p = some cp ∧ cp.retired
  forgotten : ∀ {t}, t ∈ s.ffTickets → ∃ n, n ≤ s.ticketCounter ∧ t = ticketName n ∧
    ∀ k c, s.calls k = some c → c.ticket ≠ some n

/-! ## Frames

Slices of connects, closes and receive loops touch the ledger only through the pending
table and the calls. -/

/-- The fields that ticket matching depends on. -/
structure Ledger where
  ticketCounter : ℕ
  pending : List (String × ℕ)
  ffTickets : List String
  calls : ℕ → Option Call

/-- The ledger of a state. -/
def ledger (s : State) : Ledger := ⟨s.ticketCounter, s.pending, s.ffTickets, s.calls⟩

theorem TicketInv.congr {s t : State} (h : TicketInv s) (hledger : ledger t = ledger s) :
    TicketInv t := by
  simp only [ledger, Ledger.mk.injEq] at hledger
  obtain ⟨hcounter, hpending, hff, hcalls⟩ := hledger
  constructor
  · rw [hcalls]; exact h.consistent
  · rw [hcalls, hcounter]; exact h.issued
  · rw [hcalls]; exact h.unique
  · rw [hpending]; exact h.keys
  · rw [hpending, hcalls]; exact h.entry
  · rw [hpending, hcalls]; exact h.registered
  · rw [hcalls]; exact h.parent
  · rw [hff, hcalls, hcounter]; exact h.forgotten

section Ledger

variable (s : State)

@[simp] theorem ledger_sever (c : Option ℕ) : ledger (sever s c) = ledger s := by
  cases c <;> rfl

@[simp] theorem ledger_modifyLoop (l : ℕ) (f : Loop → Loop) :
    ledger (modifyLoop s l f) = ledger s := rfl

@[simp] theorem ledger_endLoop (l : ℕ) (cause : LoopEnd) :
    ledger (endLoop s l cause) = ledger s := rfl

@[simp] theorem ledger_setConnect (j : ℕ) (phase : ConnectPhase) :
    ledger (setConnect s j phase) = ledger s := rfl

@[simp] theorem ledger_setClose (i : ℕ) (phase : ClosePhase) :
    ledger (setClose s i phase) = ledger s := rfl

@[simp] theorem ledger_loopHead (l : ℕ) : ledger (loopHead s l) = ledger s := by
  unfold loopHead
  split
  · split <;> simp
  · simp

@[simp] theorem ledger_connectDrop (j : ℕ) : ledger (connectDrop s j) = ledger s := by
  unfold connectDrop
  split <;> simp

@[simp] theorem ledger_connectBegin (j : ℕ) : ledger (connectBegin s j) = ledger s := by
  unfold connectBegin
  split
  · split <;> simp
  · simp

@[simp] theorem ledger_connectOpened (j : ℕ) (selected : Bool) :
    ledger (connectOpened s j selected) = ledger s := by
  cases selected
  · exact ledger_sever s s.ws
  · exact ledger_sever s s.ws

@[simp] theorem ledger_dropSocket : ledger (dropSocket s) = ledger s :=
  ledger_sever s s.ws

@[simp] theorem ledger_queueFrame (data : Dict) : ledger (queueFrame s data) = ledger s := by
  unfold queueFrame
  simp only
  split <;> rfl

@[simp] theorem ledger_closeFail (i : ℕ) (l : Option ℕ) :
    ledger (closeFail s i l) = ledger (failPending s "WebSocket closed") := by
  unfold closeFail
  simp only
  split
  · split <;> simp
  · simp

end Ledger

/-! ## Changes of call records -/

section Records

variable {s t : State} {k : ℕ}

/-- What the change of one call record from `s` to `t` must respect. -/
structure Call.Steps (s t : State) (k : ℕ) (c c' : Call) : Prop where
  ticket : c'.ticket = c.ticket
  parent : c'.parent = c.parent
  consistent : c'.Consistent
  entry : ∀ {name}, (name, k) ∈ t.pending → c'.live = true ∧ c'.future.isResolved = false
  registered : c'.live = true → c'.future.isWaiting = true → c.live = true ∧
    c.future.isWaiting = true ∧ ∀ {name}, (name, k) ∈ s.pending → (name, k) ∈ t.pending
  retired : c.retired → c'.retired

/-- The invariant survives when every record changes as `Call.Steps` allows and the
pending table only loses entries. -/
theorem TicketInv.map_calls (h : TicketInv s) (g : ℕ → Call → Call)
    (hcalls : ∀ i, t.calls i = (s.calls i).map (g i))
    (hcounter : t.ticketCounter = s.ticketCounter) (hff : t.ffTickets = s.ffTickets)
    (hsub : t.pending.Sublist s.pending)
    (hstep : ∀ i c, s.calls i = some c → Call.Steps s t i c (g i c)) : TicketInv t := by
  -- each clause is read off the record before, and carried over by `Call.Steps`
  have hold {i : ℕ} {c' : Call} (hc' : t.calls i = some c') :
      ∃ c, s.calls i = some c ∧ Call.Steps s t i c c' := by
    rw [hcalls] at hc'
    obtain ⟨c, hc, rfl⟩ := Option.map_eq_some_iff.mp hc'
    exact ⟨c, hc, hstep i c hc⟩
  have hnew {i : ℕ} {c : Call} (hc : s.calls i = some c) : t.calls i = some (g i c) := by
    rw [hcalls, hc]
    rfl
  constructor
  · intro i c' hc'
    obtain ⟨c, _, hs⟩ := hold hc'
    exact hs.consistent
  · intro i c' n hc' hn
    obtain ⟨c, hc, hs⟩ := hold hc'
    rw [hcounter]
    exact h.issued hc (hs.ticket ▸ hn)
  · intro i i' c₁ c₁' n hc₁ hc₁' hn hn'
    obtain ⟨c, hc, hs⟩ := hold hc₁
    obtain ⟨c', hc', hs'⟩ := hold hc₁'
    exact h.unique hc hc' (hs.ticket ▸ hn) (hs'.ticket ▸ hn')
  · exact h.keys.sublist (hsub.map _)
  · intro name i hmem
    obtain ⟨c, n, hc, hn, hname, _, _⟩ := h.entry (hsub.subset hmem)
    have hs := hstep i c hc
    exact ⟨g i c, n, hnew hc, hs.ticket.trans hn, hname, hs.entry hmem⟩
  · intro i c' n hc' hlive hwait hn
    obtain ⟨c, hc, hs⟩ := hold hc'
    obtain ⟨hlive', hwait', hkeep⟩ := hs.registered hlive hwait
    exact hkeep (h.registered hc hlive' hwait' (hs.ticket ▸ hn))
  · intro i c' p hc' hp
    obtain ⟨c, hc, hs⟩ := hold hc'
    obtain ⟨cp, hcp, hretired⟩ := h.parent hc (hs.parent ▸ hp)
    exact ⟨g p cp, hnew hcp, (hstep p cp hcp).retired hretired⟩
  · intro name hmem
    rw [hff] at hmem
    obtain ⟨n, hn, hname, hnone⟩ := h.forgotten hmem
    refine ⟨n, hcounter ▸ hn, hname, fun i c' hc' => ?_⟩
    obtain ⟨c, hc, hs⟩ := hold hc'
    rw [hs.ticket]
    exact hnone i c hc

/-- A record that stays as it is respects the change if its entries stay. -/
theorem TicketInv.steps_refl (h : TicketInv s) {c : Call} (hc : s.calls k = some c)
    (hsub : t.pending.Sublist s.pending)
    (hkeep : ∀ {name}, (name, k) ∈ s.pending → (name, k) ∈ t.pending) :
    Call.Steps s t k c c where
  ticket := rfl
  parent := rfl
  consistent := h.consistent hc
  entry := by
    intro name hmem
    obtain ⟨c', n, hc', _, _, hlive, hres⟩ := h.entry (hsub.subset hmem)
    obtain rfl : c = c' := Option.some.inj (hc.symm.trans hc')
    exact ⟨hlive, hres⟩
  registered := fun hlive hwait => ⟨hlive, hwait, hkeep⟩
  retired := id

/-- The invariant survives a change of one record. -/
theorem TicketInv.modify (h : TicketInv s) (f : Call → Call)
    (hcalls : t.calls = Function.update s.calls k ((s.calls k).map f))
    (hcounter : t.ticketCounter = s.ticketCounter) (hff : t.ffTickets = s.ffTickets)
    (hsub : t.pending.Sublist s.pending)
    (hkeep : ∀ {name i}, i ≠ k → (name, i) ∈ s.pending → (name, i) ∈ t.pending)
    (hstep : ∀ c, s.calls k = some c → Call.Steps s t k c (f c)) : TicketInv t := by
  refine h.map_calls (fun i => if i = k then f else id) ?_ hcounter hff hsub ?_
  · intro i
    rw [hcalls]
    by_cases hi : i = k
    · subst hi
      simp
    · simp [hi]
  · intro i c hc
    by_cases hi : i = k
    · subst hi
      simpa using hstep c hc
    · simpa [hi] using h.steps_refl hc hsub (hkeep hi)

/-- `t` is `s` after the entries of call `k` left the pending table. -/
structure Popped (s t : State) (k : ℕ) : Prop where
  calls : t.calls = s.calls
  counter : t.ticketCounter = s.ticketCounter
  ff : t.ffTickets = s.ffTickets
  sub : t.pending.Sublist s.pending
  keep : ∀ {name i}, i ≠ k → (name, i) ∈ s.pending → (name, i) ∈ t.pending
  gone : ∀ {name}, (name, k) ∉ t.pending

/-- Removing the ticket of a call removes its entries and no others. -/
theorem TicketInv.popped (h : TicketInv s) {c : Call} {n : ℕ} (hc : s.calls k = some c)
    (hn : c.ticket = some n) : Popped s (popTicket s (ticketName n)) k where
  calls := rfl
  counter := rfl
  ff := rfl
  sub := List.filter_sublist
  keep := by
    intro name i hi hmem
    obtain ⟨c', n', hc', hn', rfl, _, _⟩ := h.entry hmem
    refine List.mem_filter.mpr ⟨hmem, ?_⟩
    have hne : ticketName n' ≠ ticketName n := fun heq =>
      hi (h.unique hc' hc (ticketName_injective heq ▸ hn') hn)
    simpa using hne
  gone := by
    intro name hmem
    obtain ⟨hmem, hne⟩ := List.mem_filter.mp hmem
    obtain ⟨c', n', hc', hn', rfl, _, _⟩ := h.entry hmem
    obtain rfl : c = c' := Option.some.inj (hc.symm.trans hc')
    obtain rfl : n = n' := Option.some.inj (hn.symm.trans hn')
    simp at hne

/-- A call without entries needs no removal. -/
theorem Popped.self (hgone : ∀ {name}, (name, k) ∉ s.pending) : Popped s s k :=
  ⟨rfl, rfl, rfl, .refl _, fun _ hmem => hmem, hgone⟩

theorem TicketInv.popOwn_popped (h : TicketInv s) {c : Call} (hc : s.calls k = some c) :
    Popped s (popOwn s k) k := by
  unfold popOwn
  cases hn : c.ticket with
  | some n => simpa [hc, hn] using h.popped hc hn
  | none =>
    simp only [hc, Option.bind_some, hn]
    refine Popped.self fun {name} hmem => ?_
    obtain ⟨c', n', hc', hn', _⟩ := h.entry hmem
    obtain rfl : c = c' := Option.some.inj (hc.symm.trans hc')
    simp [hn] at hn'

/-- A call whose entries are gone may leave its awaits. -/
theorem TicketInv.leave (h : TicketInv s) {t u : State} (hpop : Popped s t k) (phase : CallPhase)
    (hlive : phase.isSending = false ∧ phase.isWaiting = false ∧ phase.isReconnecting = false)
    (hreturned : ∀ {c data}, s.calls k = some c → phase = .exited (.returned data) →
      c.future = .result data)
    (hraised : ∀ {c data}, s.calls k = some c → phase = .exited (.peerError data) →
      c.future = .peerError data)
    (hu : ledger u = ledger (modifyCall t k fun c => { c with phase := phase })) :
    TicketInv u := by
  refine TicketInv.congr ?_ hu
  refine h.modify (k := k) (fun c => { c with phase := phase }) ?_ hpop.counter hpop.ff
    hpop.sub hpop.keep ?_
  · simp [modifyCall, hpop.calls]
  · intro c hc
    have hcons := h.consistent hc
    refine ⟨rfl, rfl, ⟨hcons.answered, hcons.counted, fun hp => @hreturned c _ hc hp,
      fun hp => @hraised c _ hc hp, ?_⟩, ?_, ?_, ?_⟩
    · simp [Call.live, hlive]
    · exact fun hmem => absurd hmem hpop.gone
    · simp [Call.live, hlive]
    · simp [Call.retired, Call.live, hlive]

/-- Leaving a call keeps the invariant, nested calls and their parents included. -/
theorem TicketInv.exitCall (h : TicketInv s) {t : State} (hpop : Popped s t k) (outcome : Outcome)
    (hreturned : ∀ {c data}, s.calls k = some c → outcome = .returned data →
      c.future = .result data)
    (hraised : ∀ {c data}, s.calls k = some c → outcome = .peerError data →
      c.future = .peerError data) :
    TicketInv (exitCall t k outcome) := by
  have hout (u : State)
      (hu : ledger u = ledger (modifyCall t k fun c => { c with phase := .exited outcome })) :
      TicketInv u := by
    refine h.leave hpop (.exited outcome) ⟨rfl, rfl, rfl⟩ ?_ ?_ hu
    · intro c data hc hp
      exact hreturned hc (by simpa using hp)
    · intro c data hc hp
      exact hraised hc (by simpa using hp)
  unfold Transport.exitCall
  cases hp : (t.calls k).bind Call.parent with
  | none => exact hout _ rfl
  | some p =>
    simp only
    set u := modifyCall { t with probingStepping := false } k
      fun c => { c with phase := .exited outcome } with hu
    have hinv : TicketInv u := hout u rfl
    obtain ⟨c, hc, hcp⟩ := Option.bind_eq_some_iff.mp hp
    have huk : u.calls k = some { c with phase := .exited outcome } := by
      simp [hu, modifyCall, hc]
    obtain ⟨cp, hcp', hretired⟩ := hinv.parent huk hcp
    -- The parent is past its awaits, so it has no entry in the pending table.
    have hgone : ∀ {name}, (name, p) ∉ u.pending := by
      intro name hmem
      obtain ⟨c', _, hc', _, _, hlive, _⟩ := hinv.entry hmem
      obtain rfl : cp = c' := Option.some.inj (hcp'.symm.trans hc')
      rw [hretired.1] at hlive
      exact absurd hlive (by decide)
    cases outcome <;>
      exact hinv.leave (Popped.self hgone) (.exited _) ⟨rfl, rfl, rfl⟩
        (by intro c data _ hp; simp at hp) (by intro c data _ hp; simp at hp) rfl

/-- A call that is not under its awaits has no entry. -/
theorem TicketInv.no_entry (h : TicketInv s)
    (hk : ∀ c, s.calls k = some c → c.live = false) {name : String} : (name, k) ∉ s.pending := by
  intro hmem
  obtain ⟨c, _, hc, _, _, hlive, _⟩ := h.entry hmem
  rw [hk c hc] at hlive
  exact absurd hlive (by decide)

theorem live_of_isReconnecting {c : Call} (h : c.phase.isReconnecting = true) :
    c.live = false := by
  cases hp : c.phase <;> simp_all [Call.live, CallPhase.isReconnecting, CallPhase.isSending,
    CallPhase.isWaiting]

/-- The invariant survives a record for a call that is new or still to register, with
a ticket above every earlier one or with none. -/
theorem TicketInv.setFresh (h : TicketInv s) {t : State} {new : Call}
    (hk : ∀ c, s.calls k = some c → c.phase.isReconnecting = true)
    (hcalls : t.calls = Function.update s.calls k (some new))
    (hcounter : s.ticketCounter ≤ t.ticketCounter) (hff : t.ffTickets = s.ffTickets)
    (hcons : new.Consistent)
    (hticket : ∀ n, new.ticket = some n → s.ticketCounter < n ∧ n ≤ t.ticketCounter ∧
      new.live = true ∧ new.future.isResolved = false)
    (hpending : ∀ e, e ∈ t.pending ↔
      e ∈ s.pending ∨ ∃ n, new.ticket = some n ∧ e = (ticketName n, k))
    (hkeys : (t.pending.map Prod.fst).Nodup)
    (hparent : ∀ p, new.parent = some p → ∃ cp, s.calls p = some cp ∧ cp.retired) :
    TicketInv t := by
  have hold {i : ℕ} {c : Call} (hc : t.calls i = some c) :
      (i = k ∧ c = new) ∨ (i ≠ k ∧ s.calls i = some c) := by
    rw [hcalls] at hc
    by_cases hi : i = k
    · subst hi
      exact Or.inl ⟨rfl, by simpa [eq_comm] using hc⟩
    · exact Or.inr ⟨hi, by simpa [Function.update_of_ne hi] using hc⟩
  have hnew {i : ℕ} {c : Call} (hi : i ≠ k) (hc : s.calls i = some c) : t.calls i = some c := by
    rw [hcalls, Function.update_of_ne hi, hc]
  have hself : t.calls k = some new := by
    rw [hcalls, Function.update_self]
  -- A ticket given out before is not the new one.
  have hnumber {i n : ℕ} {c : Call} (hc : s.calls i = some c) (hn : c.ticket = some n) :
      new.ticket ≠ some n := by
    intro hn'
    have hle := h.issued hc hn
    have hlt := (hticket n hn').1
    omega
  constructor
  · intro i c hc
    rcases hold hc with ⟨_, rfl⟩ | ⟨_, hc⟩
    · exact hcons
    · exact h.consistent hc
  · intro i c n hc hn
    rcases hold hc with ⟨_, rfl⟩ | ⟨_, hc⟩
    · exact (hticket n hn).2.1
    · exact Nat.le_trans (h.issued hc hn) hcounter
  · intro i i' c c' n hc hc' hn hn'
    rcases hold hc with ⟨hi, rfl⟩ | ⟨_, hc⟩
    · rcases hold hc' with ⟨hi', _⟩ | ⟨_, hc'⟩
      · rw [hi, hi']
      · exact absurd hn (hnumber hc' hn')
    · rcases hold hc' with ⟨_, rfl⟩ | ⟨_, hc'⟩
      · exact absurd hn' (hnumber hc hn)
      · exact h.unique hc hc' hn hn'
  · exact hkeys
  · intro name i hmem
    rcases (hpending _).mp hmem with hmem | ⟨n, hn, heq⟩
    · have hi : i ≠ k := by
        rintro rfl
        exact h.no_entry (fun c hc => live_of_isReconnecting (hk c hc)) hmem
      obtain ⟨c, n, hc, hrest⟩ := h.entry hmem
      exact ⟨c, n, hnew hi hc, hrest⟩
    · obtain ⟨rfl, rfl⟩ := Prod.mk.inj heq
      exact ⟨new, n, hself, hn, rfl, (hticket n hn).2.2⟩
  · intro i c n hc hlive hwait hn
    rcases hold hc with ⟨rfl, rfl⟩ | ⟨_, hc⟩
    · exact (hpending _).mpr (Or.inr ⟨n, hn, rfl⟩)
    · exact (hpending _).mpr (Or.inl (h.registered hc hlive hwait hn))
  · intro i c p hc hp
    have hret : ∃ cp, s.calls p = some cp ∧ cp.retired := by
      rcases hold hc with ⟨_, rfl⟩ | ⟨_, hc⟩
      · exact hparent p hp
      · exact h.parent hc hp
    obtain ⟨cp, hcp, hretired⟩ := hret
    have hne : p ≠ k := by
      rintro rfl
      have := hk cp hcp
      rw [hretired.2] at this
      exact absurd this (by decide)
    exact ⟨cp, hnew hne hcp, hretired⟩
  · intro name hmem
    rw [hff] at hmem
    obtain ⟨n, hn, hname, hnone⟩ := h.forgotten hmem
    refine ⟨n, Nat.le_trans hn hcounter, hname, fun i c hc hcn => ?_⟩
    rcases hold hc with ⟨_, rfl⟩ | ⟨_, hc⟩
    · have hlt := (hticket n hcn).1
      omega
    · exact hnone i c hc hcn

/-- Taking the next ticket keeps the invariant. -/
theorem TicketInv.register (h : TicketInv s) (event : String) (parent : Option ℕ)
    (hk : ∀ c, s.calls k = some c → c.phase.isReconnecting = true)
    (hparent : ∀ p, parent = some p → ∃ cp, s.calls p = some cp ∧ cp.retired) :
    TicketInv (register s k event parent) := by
  -- the counter is above every ticket in the table, so no entry is replaced
  have hfresh : ∀ e ∈ s.pending, (e.1 != ticketName (s.ticketCounter + 1)) = true := by
    rintro ⟨name, i⟩ hmem
    obtain ⟨c, n, hc, hn, rfl, _, _⟩ := h.entry hmem
    have hle := h.issued hc hn
    have hne : n ≠ s.ticketCounter + 1 := by omega
    simpa using fun heq => hne (ticketName_injective heq)
  have hpending : (Transport.register s k event parent).pending =
      s.pending ++ [(ticketName (s.ticketCounter + 1), k)] := by
    simp only [Transport.register, setCall, popTicket, List.filter_eq_self.mpr hfresh]
  refine h.setFresh hk rfl (Nat.le_succ _) rfl ?_ ?_ ?_ ?_ hparent
  · constructor <;> simp [Future.isResolved]
  · rintro n ⟨⟩
    exact ⟨Nat.lt_succ_self _, Nat.le_refl _, rfl, rfl⟩
  · intro e
    rw [hpending]
    simp
  · rw [hpending, List.map_append, List.nodup_append]
    refine ⟨h.keys, by simp, ?_⟩
    intro name hname name' hname' heq
    obtain ⟨e, he, rfl⟩ := List.mem_map.mp hname
    obtain rfl : name' = ticketName (s.ticketCounter + 1) := by simpa using hname'
    simpa [heq] using hfresh e he

/-- Entering a call keeps the invariant. -/
theorem TicketInv.enterCall (h : TicketInv s) (event : String) (parent : Option ℕ)
    (hk : s.calls k = none)
    (hparent : ∀ p, parent = some p → ∃ cp, s.calls p = some cp ∧ cp.retired) :
    TicketInv (enterCall s k event parent) := by
  have hk' : ∀ c, s.calls k = some c → c.phase.isReconnecting = true := by
    intro c hc
    rw [hk] at hc
    exact absurd hc (by simp)
  unfold Transport.enterCall
  split
  · exact h.register event parent hk' hparent
  · refine h.setFresh hk' rfl (Nat.le_refl _) rfl ?_ ?_ ?_ h.keys hparent
    · constructor <;> simp [unregistered, Call.live, CallPhase.isSending, CallPhase.isWaiting,
        Future.isResolved]
    · simp [unregistered]
    · simp [unregistered, setCall]

/-! ## Slices -/

/-- Handing a frame to the call that its ticket names keeps the invariant. -/
theorem TicketInv.dispatch (h : TicketInv s) (raw : Option Value) :
    TicketInv (dispatch s raw) := by
  unfold Transport.dispatch
  split
  · rename_i data
    split
    · exact h
    · exact h.congr (ledger_queueFrame s data)
    · rename_i name k hkey
      obtain ⟨hmem, hcarries⟩ : (name, k) ∈ s.pending ∧ frameTicket data = some (.str name) := by
        unfold pendingKey at hkey
        split at hkey
        · rename_i ticket hticket
          split at hkey
          · simp at hkey
          · have hfind : s.pending.find? (fun entry => entry.1 == ticket) = some (name, k) := by
              simpa using hkey
            have hname : name = ticket := by simpa using List.find?_some hfind
            exact ⟨List.mem_of_find?_eq_some hfind, hname ▸ hticket⟩
        all_goals first | (split at hkey <;> simp at hkey) | simp at hkey
      obtain ⟨c, n, hc, hn, rfl, hlive, hres⟩ := h.entry hmem
      have hpop := h.popped hc hn
      refine h.modify _ rfl hpop.counter hpop.ff hpop.sub hpop.keep ?_
      intro c' hc'
      obtain rfl : c = c' := Option.some.inj (hc.symm.trans hc')
      have hcons := h.consistent hc
      -- a future that was cancelled meanwhile ignores the frame; its entry is gone all the same
      by_cases hwait : c.future.isWaiting = true
      · simp only [Call.resolve, hwait, if_true]
        have hexited : ∀ o, c.phase ≠ .exited o := by
          intro o ho
          simp [Call.live, ho, CallPhase.isSending, CallPhase.isWaiting] at hlive
        refine ⟨rfl, rfl, ⟨?_, ?_, ?_, ?_, hcons.ticketed⟩, fun hmem => absurd hmem hpop.gone,
          ?_, id⟩
        · intro data' hdata
          refine ⟨n, hn, ?_⟩
          by_cases herr : isErrorFrame data = true
          · simp only [herr, if_true, reduceCtorEq, Future.peerError.injEq, false_or] at hdata
            exact hdata ▸ hcarries
          · simp only [herr, if_false, reduceCtorEq, Future.result.injEq, or_false,
              Bool.false_eq_true] at hdata
            exact hdata ▸ hcarries
        · have hzero : c.resolutions = 0 := by simpa [hres] using hcons.counted
          simp only [hzero]
          split <;> rfl
        · exact fun hp => absurd hp (hexited _)
        · exact fun hp => absurd hp (hexited _)
        · intro _ hw
          exfalso
          revert hw
          simp only
          split <;> simp [Future.isWaiting]
      · simp only [Call.resolve, hwait, if_false, Bool.false_eq_true]
        exact ⟨rfl, rfl, hcons, fun hmem => absurd hmem hpop.gone,
          fun _ hw => absurd hw hwait, id⟩
  · exact h

theorem Call.resolve_of_waiting {c : Call} (h : c.future.isWaiting = true) (future : Future) :
    c.resolve future = { c with future := future, resolutions := c.resolutions + 1 } :=
  if_pos h

theorem Call.resolve_of_done {c : Call} (h : c.future.isWaiting = false) (future : Future) :
    c.resolve future = c :=
  if_neg (by rw [h]; decide)

/-- Failing a future again changes nothing. -/
theorem Call.fail_fail (c : Call) (message : String) :
    (c.resolve (.connectionError message)).resolve (.connectionError message) =
      c.resolve (.connectionError message) := by
  apply Call.resolve_of_done
  cases hwait : c.future.isWaiting with
  | true => rw [Call.resolve_of_waiting hwait]; rfl
  | false => rwa [Call.resolve_of_done hwait]

/-- What failing a list of entries does to the calls: each named future is failed once. -/
theorem failEntries_calls (message : String) (entries : List (String × ℕ)) (i : ℕ) :
    ∀ s : State, (failEntries s message entries).calls i =
      if i ∈ entries.map Prod.snd then
        (s.calls i).map fun c => c.resolve (.connectionError message)
      else s.calls i := by
  induction entries with
  | nil => simp [failEntries]
  | cons e rest ih =>
    obtain ⟨name, k⟩ := e
    intro s
    rw [failEntries, ih]
    by_cases hik : i = k
    · subst hik
      by_cases hmem : i ∈ rest.map Prod.snd
      · simp only [hmem, if_true, modifyCall, Function.update_self, Option.map_map,
          Function.comp_def, Call.fail_fail, List.map_cons, List.mem_cons, true_or]
      · simp [hmem, modifyCall]
    · simp only [modifyCall, Function.update_of_ne hik, List.map_cons, List.mem_cons, hik,
        false_or]

/-- Failing entries touches the calls only. -/
theorem failEntries_frame (message : String) (entries : List (String × ℕ)) :
    ∀ s : State, failEntries s message entries =
      { s with calls := (failEntries s message entries).calls } := by
  induction entries with
  | nil => exact fun s => rfl
  | cons e rest ih =>
    intro s
    rw [failEntries, ih]
    rfl

/-- Failing everything that waits in the pending table keeps the invariant. -/
theorem TicketInv.failPending (h : TicketInv s) (message : String) :
    TicketInv (failPending s message) := by
  have hcalls := failEntries_calls message s.pending
  unfold Transport.failPending
  rw [failEntries_frame]
  refine h.map_calls (fun i c => if i ∈ s.pending.map Prod.snd then
    c.resolve (.connectionError message) else c) ?_ rfl rfl (List.nil_sublist _) ?_
  · intro i
    simp only [hcalls]
    split <;> simp
  · intro i c hc
    have hcons := h.consistent hc
    have hnone {name : String} : (name, i) ∉ ([] : List (String × ℕ)) := List.not_mem_nil
    by_cases hmem : i ∈ s.pending.map Prod.snd
    · simp only [hmem, if_true]
      by_cases hwait : c.future.isWaiting = true
      · obtain ⟨⟨name, i'⟩, he, rfl⟩ := List.mem_map.mp hmem
        obtain ⟨c', n, hc', hn, _, hlive, hres⟩ := h.entry he
        obtain rfl : c = c' := Option.some.inj (hc.symm.trans hc')
        have hexited : ∀ o, c.phase ≠ .exited o := by
          intro o ho
          simp [Call.live, ho, CallPhase.isSending, CallPhase.isWaiting] at hlive
        have hzero : c.resolutions = 0 := by simpa [hres] using hcons.counted
        simp only [Call.resolve, hwait, if_true]
        exact ⟨rfl, rfl, ⟨by simp, by simp [hzero, Future.isResolved],
          fun hp => absurd hp (hexited _), fun hp => absurd hp (hexited _), hcons.ticketed⟩,
          fun hmem => absurd hmem hnone, by simp [Future.isWaiting], id⟩
      · simp only [Call.resolve, hwait, if_false, Bool.false_eq_true]
        exact ⟨rfl, rfl, hcons, fun hmem => absurd hmem hnone,
          fun _ hw => absurd hw hwait, id⟩
    · simp only [hmem, if_false]
      refine ⟨rfl, rfl, hcons, fun hmem => absurd hmem hnone, fun hlive hwait => ?_, id⟩
      -- A live call with a waiting future has an entry, so it was in the table.
      obtain ⟨n, hn⟩ := Option.isSome_iff_exists.mp (hcons.ticketed hlive)
      exact absurd (List.mem_map.mpr ⟨_, h.registered hc hlive hwait hn, rfl⟩) hmem

/-- The timeout path of a call keeps the invariant. -/
theorem TicketInv.timeOut (h : TicketInv s) {c : Call} (hc : s.calls k = some c) {child : ℕ}
    (hchild : s.calls child = none) : TicketInv (timeOut s k child) := by
  have hpop := h.popOwn_popped hc
  unfold Transport.timeOut
  simp only
  split
  · exact h.exitCall hpop .timedOut (by simp) (by simp)
  · have hne : child ≠ k := by
      rintro rfl
      simp [hchild] at hc
    have hprobing := h.leave hpop .probing ⟨rfl, rfl, rfl⟩ (by simp) (by simp)
      (u := modifyCall { popOwn s k with probingStepping := true } k
        fun c => { c with phase := .probing }) rfl
    refine hprobing.enterCall "cpu.status" (some k) ?_ ?_
    · simp [modifyCall, Function.update_of_ne hne, hpop.calls, hchild]
    · rintro p ⟨⟩
      exact ⟨{ c with phase := .probing }, by simp [modifyCall, hpop.calls, hc], rfl, rfl⟩

/-- Resuming a call keeps the invariant. -/
theorem TicketInv.wakeCall (h : TicketInv s) {c : Call} (hc : s.calls k = some c) {child : ℕ}
    (hchild : s.calls child = none) : TicketInv (wakeCall s k child) := by
  have hpop := h.popOwn_popped hc
  have hsame {c' : Call} (hc' : s.calls k = some c') : c' = c :=
    Option.some.inj (hc'.symm.trans hc)
  unfold Transport.wakeCall
  simp only [hc]
  split
  · exact h.exitCall hpop .cancelled (by simp) (by simp)
  · exact h.timeOut hc hchild
  · rename_i data _ hfuture
    -- the entry was popped when the frame resolved the future
    have hgone : ∀ {name}, (name, k) ∉ s.pending := by
      intro name hmem
      obtain ⟨c', _, hc', _, _, _, hres⟩ := h.entry hmem
      rw [hsame hc', hfuture] at hres
      simp [Future.isResolved] at hres
    refine h.exitCall (Popped.self hgone) (.returned data) ?_ (by simp)
    rintro c' _ hc' ⟨⟩
    rw [hsame hc', hfuture]
  · rename_i data _ hfuture
    refine h.exitCall hpop (.peerError data) (by simp) ?_
    rintro c' _ hc' ⟨⟩
    rw [hsame hc', hfuture]
  · exact h.exitCall hpop (.connectionError _) (by simp) (by simp)
  · exact h.exitCall hpop .cancelled (by simp) (by simp)
  · exact h

/-- A fire-and-forget send keeps the invariant. -/
theorem TicketInv.fireAndForget (h : TicketInv s) : TicketInv (fireAndForget s) := by
  have hcounter : (Transport.fireAndForget s).ticketCounter = s.ticketCounter + 1 := rfl
  refine ⟨h.consistent, ?_, h.unique, h.keys, h.entry, h.registered, h.parent, ?_⟩
  · intro i c n hc hn
    have hle := h.issued hc hn
    omega
  · intro name hmem
    rcases mem_pushDropOldest hmem with hmem | rfl
    · obtain ⟨n, hn, hname, hnone⟩ := h.forgotten hmem
      exact ⟨n, by omega, hname, hnone⟩
    · refine ⟨s.ticketCounter + 1, by omega, rfl, fun i c hc hn => ?_⟩
      have hle := h.issued hc hn
      omega

/-- An awaiting call that is interrupted keeps the invariant. -/
theorem TicketInv.interrupt (h : TicketInv s) (i : Interrupt)
    (hk : ∀ c, s.calls k = some c → c.live = true) :
    TicketInv (modifyCall s k fun c => c.interrupted i) := by
  refine h.modify (fun c => c.interrupted i) rfl rfl rfl (.refl _) (fun _ hmem => hmem) ?_
  intro c hc
  have hcons := h.consistent hc
  have hlive : (c.interrupted i).live = true := hk c hc
  have hexited : ∀ o, (c.interrupted i).phase ≠ .exited o := by
    intro o ho
    simp [Call.live, ho, CallPhase.isSending, CallPhase.isWaiting] at hlive
  have hres : (c.interrupted i).future.isResolved = c.future.isResolved := by
    cases hfuture : c.future <;> simp [Call.interrupted, hfuture, Future.isWaiting,
      Future.isResolved]
  refine ⟨rfl, rfl, ⟨?_, ?_, fun hp => absurd hp (hexited _), fun hp => absurd hp (hexited _),
    hcons.ticketed⟩, ?_, ?_, ?_⟩
  · intro data hdata
    refine @Call.Consistent.answered c hcons data ?_
    cases hfuture : c.future <;>
      simp_all [Call.interrupted, Future.isWaiting]
  · rw [hres]
    exact hcons.counted
  · intro name hmem
    obtain ⟨c', _, hc', _, _, _, hres'⟩ := h.entry hmem
    obtain rfl : c = c' := Option.some.inj (hc.symm.trans hc')
    exact ⟨hlive, hres.trans hres'⟩
  · intro _ hwait
    exfalso
    cases hfuture : c.future <;>
      simp [Call.interrupted, hfuture, Future.isWaiting] at hwait
  · rintro ⟨hdead, _⟩
    exact absurd (hk c hc) (by rw [hdead]; decide)

/-- A send that went through keeps the invariant. -/
theorem TicketInv.sent (h : TicketInv s)
    (hk : ∀ c, s.calls k = some c → c.phase.isSending = true) :
    TicketInv (modifyCall s k fun c => { c with phase := .waiting }) := by
  refine h.modify (fun c => { c with phase := .waiting }) rfl rfl rfl (.refl _)
    (fun _ hmem => hmem) ?_
  intro c hc
  have hcons := h.consistent hc
  have hlive : c.live = true := by simp [Call.live, hk c hc]
  refine ⟨rfl, rfl, ⟨hcons.answered, hcons.counted, by simp, by simp,
    fun _ => hcons.ticketed hlive⟩, ?_, fun _ hwait => ⟨hlive, hwait, id⟩, ?_⟩
  · intro name hmem
    obtain ⟨c', _, hc', _, _, _, hres⟩ := h.entry hmem
    obtain rfl : c = c' := Option.some.inj (hc.symm.trans hc')
    exact ⟨rfl, hres⟩
  · rintro ⟨hdead, _⟩
    exact absurd hlive (by rw [hdead]; decide)

/-- Closing keeps the invariant. -/
theorem TicketInv.closeFail (h : TicketInv s) (i : ℕ) (l : Option ℕ) :
    TicketInv (closeFail s i l) :=
  (h.failPending _).congr (ledger_closeFail s i l)

theorem TicketInv.closeAfterLoop (h : TicketInv s) (i l : ℕ) (cause : LoopEnd) :
    TicketInv (closeAfterLoop s i l cause) := by
  unfold Transport.closeAfterLoop
  split
  · exact h.congr rfl
  · have hnone : TicketInv { s with recvTask := none } := h.congr rfl
    exact hnone.closeFail i (some l)

end Records

/-! ## Runs -/

/-- Every slice of every task keeps the invariant. -/
theorem ticketInv_apply {s : State} {e : Event} (h : TicketInv s) (he : enabled s e = true) :
    TicketInv (apply s e) := by
  -- The slices of a call change its record; those of the loop, of `connect` and of `close`
  -- leave the ledger alone or fail every future in the table.
  cases e with
  | callStart k event =>
    exact h.enterCall event none (by simpa [enabled] using he) (by simp)
  | reconnected k =>
    obtain ⟨c, hc, hrec⟩ : ∃ c, s.calls k = some c ∧ c.phase.isReconnecting = true :=
      (Option.any_eq_true _ _).mp he
    have hk : ∀ c, s.calls k = some c → c.phase.isReconnecting = true := by
      intro c' hc'
      rwa [Option.some.inj (hc'.symm.trans hc)]
    simp only [apply, hc]
    split
    · exact h.register c.event c.parent hk fun p hp => h.parent hc hp
    · have hgone : ∀ {name}, (name, k) ∉ s.pending :=
        h.no_entry fun c hc => live_of_isReconnecting (hk c hc)
      exact h.exitCall (Popped.self hgone) .notConnected (by simp) (by simp)
  | reconnectFailed k cancelled =>
    obtain ⟨c, hc, hrec⟩ : ∃ c, s.calls k = some c ∧ c.phase.isReconnecting = true :=
      (Option.any_eq_true _ _).mp he
    have hgone : ∀ {name}, (name, k) ∉ s.pending := by
      refine h.no_entry fun c' hc' => live_of_isReconnecting ?_
      rwa [Option.some.inj (hc'.symm.trans hc)]
    cases cancelled <;> exact h.exitCall (Popped.self hgone) _ (by simp) (by simp)
  | sent k =>
    refine h.sent fun c hc => ?_
    simpa [enabled, hc] using he
  | sendFailed k cancelled =>
    obtain ⟨c, hc, _⟩ : ∃ c, s.calls k = some c ∧ c.phase.isSending = true :=
      (Option.any_eq_true _ _).mp he
    cases cancelled <;> exact h.exitCall (h.popOwn_popped hc) _ (by simp) (by simp)
  | interrupt k i =>
    refine h.interrupt i fun c hc => ?_
    have hwait : c.phase.isWaiting = true := by simpa [enabled, hc] using he
    simp [Call.live, hwait]
  | wake k child =>
    simp only [enabled, Bool.and_eq_true, Option.isNone_iff_eq_none] at he
    obtain ⟨hwake, hchild⟩ := he
    obtain ⟨c, hc, _⟩ := (Option.any_eq_true _ _).mp hwake
    exact h.wakeCall hc hchild
  | fireAndForget => exact h.fireAndForget
  | loopStart l => exact h.congr (ledger_loopHead s l)
  | recvTimeout l => exact h.congr (ledger_loopHead s l)
  | recvFrame l raw => exact (h.dispatch raw).congr (ledger_loopHead _ l)
  | recvClosed l => exact (h.failPending "PPSSPP WebSocket disconnected").congr (by simp [apply])
  | recvFailed l => exact h.congr (by simp [apply])
  | loopCancelled l =>
    simp only [apply]
    split <;> exact h.congr (by simp)
  | socketState socket state => exact h.congr rfl
  | connectBegin j => exact h.congr (ledger_connectBegin s j)
  | connectLoopEnded j => exact h.congr (ledger_connectDrop { s with recvTask := none } j)
  | connectOldClosed j => exact h.congr (by simp [apply])
  | connectOpened j selected => exact h.congr (ledger_connectOpened s j selected)
  | connectUnselectedClosed j => exact h.congr (by simp [apply])
  | connectRaised j => exact h.congr (by simp [apply])
  | closeBegin i =>
    simp only [apply, closeBegin]
    split
    · split
      · exact h.closeAfterLoop i _ _
      · exact h.congr rfl
    · exact h.closeFail i none
  | closeLoopEnded i =>
    simp only [apply]
    split
    · exact h.closeAfterLoop i _ _
    · exact h
  | closeSocketClosed i raised => exact h.congr (by simp [apply])

theorem ticketInv_init : TicketInv init := by
  constructor <;> simp [init]

/-- The invariant holds in every run. -/
theorem ticketInv_of_reachable {s : State} (h : machine.Reachable init s) : TicketInv s := by
  refine Machine.Reachable.invariant ticketInv_init (fun t e u ht hstep => ?_) h
  obtain ⟨he, rfl⟩ := machine_step_eq_some_iff.mp hstep
  exact ticketInv_apply ht he

/-- Ticket matching in one state. -/
structure TicketsMatched (s : State) : Prop where
  /-- Tickets of different calls differ. -/
  distinct : ∀ k k' c c' n n', s.calls k = some c → s.calls k' = some c' → k ≠ k' →
    c.ticket = some n → c'.ticket = some n' → ticketName n ≠ ticketName n'
  /-- The pending table has one entry for a ticket. -/
  keys : (s.pending.map Prod.fst).Nodup
  /-- A call that ends by a frame has been sent the ticket that the frame carries. -/
  own : ∀ k c data, s.calls k = some c →
    c.phase = .exited (.returned data) ∨ c.phase = .exited (.peerError data) →
    ∃ n, c.ticket = some n ∧ frameTicket data = some (.str (ticketName n))
  /-- A future is resolved at most once. -/
  once : ∀ k c, s.calls k = some c → c.resolutions ≤ 1
  /-- The ticket of a call that has exited is not pending. -/
  removed : ∀ k c n outcome, s.calls k = some c → c.phase = .exited outcome →
    c.ticket = some n → ticketName n ∉ s.pending.map Prod.fst

/-- Tickets match in every run of the transport. -/
theorem tickets_matched {s : State} (h : machine.Reachable init s) : TicketsMatched s := by
  have hinv := ticketInv_of_reachable h
  constructor
  · intro k k' c c' n n' hc hc' hne hn hn' heq
    exact hne (hinv.unique hc hc' hn (ticketName_injective heq ▸ hn'))
  · exact hinv.keys
  · intro k c data hc hexit
    have hcons := hinv.consistent hc
    rcases hexit with hexit | hexit
    · exact hcons.answered (Or.inl (hcons.returned hexit))
    · exact hcons.answered (Or.inr (hcons.raised hexit))
  · intro k c hc
    rw [(hinv.consistent hc).counted]
    split <;> omega
  · intro k c n outcome hc hexit hn hmem
    obtain ⟨⟨name, k'⟩, hentry, hname⟩ := List.mem_map.mp hmem
    obtain ⟨c', n', hc', hn', hname', hlive, _⟩ := hinv.entry hentry
    obtain rfl : n = n' := ticketName_injective (hname.symm.trans hname')
    obtain rfl : k = k' := hinv.unique hc hc' hn hn'
    obtain rfl : c = c' := Option.some.inj (hc.symm.trans hc')
    simp [Call.live, hexit, CallPhase.isSending, CallPhase.isWaiting] at hlive

/-- A connection, one call that is answered, and one that times out. -/
def answeredRun : List Event :=
  [.connectBegin 0, .connectOpened 0 true, .loopStart 0,
   .callStart 0 "cpu.status", .callStart 1 "cpu.getReg", .sent 0, .sent 1,
   .recvFrame 0 (some (.dict [(.str "ticket", .str "t1"), (.str "stepping", .bool true)])),
   .wake 0 2, .interrupt 1 .timeout, .wake 1 2]

/-- The run above returns the first call and takes the second one's ticket away. -/
theorem tickets_matched_answeredRun :
    ∃ s, machine.run init answeredRun = some s ∧ TicketsMatched s ∧
      (s.calls 0).any (fun c => c.phase.isWaiting) = false ∧ s.pending = [("t3", 2)] :=
  ⟨_, rfl, tickets_matched (Machine.reachable_of_run answeredRun rfl), rfl, rfl⟩

end Transport
