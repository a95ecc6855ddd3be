import PpssppDfx.Stepping.Client

/-!
# Whether a confirmation belongs to its command

Nothing is drained before a step or run command is sent, so a broadcast that an
earlier operation left unread is among the first that the call takes. The filter is
all that keeps it from being returned, and it lets pass whatever differs from the
state before the command.

## Main results

* `fresh_of_reaches` — confirmations are fresh in runs where each command is sent
  while its filter rejects every unread broadcast
* `stale_breakpoint` — a run that returns a broadcast from before the command
-/

set_option autoImplicit false

namespace Stepping

open Semantics

section Fresh

variable {σ τ : Type*} [DecidableEq τ] {d : Debuggee σ τ} {observed : Bool}

/-- The status report with which a step sends the first command of a call. -/
def firesAt (s : State σ τ) : Event σ → Option (Report τ)
  | .readStatus =>
    match s.phase, s.reply with
    | .probing, some (true, report) => some report
    | .probingAgain, some (_, report) => some report
    | _, _ => none
  | _ => none

/-- A command is sent only while its filter rejects every broadcast that was emitted
earlier and is still unread. -/
def FiresFresh (d : Debuggee σ τ) (s : State σ τ) (e : Event σ) : Prop :=
  ∀ report, firesAt s e = some report →
    ∀ msg ∈ unread s, accepts (preOf d report) msg.report = false

instance (d : Debuggee σ τ) (s : State σ τ) (e : Event σ) : Decidable (FiresFresh d s e) :=
  inferInstanceAs (Decidable (∀ report ∈ firesAt s e,
    ∀ msg ∈ unread s, accepts (preOf d report) msg.report = false))

/-- Every confirmation by a broadcast was emitted after the command of its call was sent. -/
def Fresh (s : State σ τ) : Prop :=
  ∀ r ∈ s.returned, ∀ msg, r.confirmation = some msg → r.mark ≤ msg.serial

/-- What holds between two steps: unread broadcasts from before the command do not pass
the filter of the call that waits. -/
structure FreshInv (s : State σ τ) : Prop where
  numbered : ∀ msg ∈ unread s, msg.serial < s.emitted
  marked : s.mark ≤ s.emitted
  stale : ∀ n saw, s.phase = .confirming n saw → ∀ msg ∈ unread s, msg.serial < s.mark →
    accepts s.pre msg.report = false
  fresh : Fresh s

variable {s t : State σ τ}

/-- Steps that emit nothing, take broadcasts away, and start no wait. -/
theorem FreshInv.shrink (h : FreshInv s) (hunread : ∀ msg ∈ unread t, msg ∈ unread s)
    (hsame : t.emitted = s.emitted ∧ t.mark = s.mark ∧ t.pre = s.pre ∧ t.returned = s.returned)
    (hphase : ∀ n saw, t.phase = .confirming n saw → ∃ n' saw', s.phase = .confirming n' saw') :
    FreshInv t := by
  obtain ⟨hemitted, hmark, hpre, hreturned⟩ := hsame
  constructor
  · intro msg hmem
    rw [hemitted]
    exact h.numbered msg (hunread msg hmem)
  · rw [hemitted, hmark]
    exact h.marked
  · intro n saw hconf msg hmem hlt
    obtain ⟨n', saw', hconf'⟩ := hphase n saw hconf
    rw [hpre]
    exact h.stale n' saw' hconf' msg (hunread msg hmem) (hmark ▸ hlt)
  · rw [Fresh, hreturned]
    exact h.fresh

/-- A new broadcast is younger than every mark. -/
theorem FreshInv.emit (h : FreshInv s) (d : Debuggee σ τ) (cpu : σ) (stepping : Bool)
    (advanced : ℕ → ℕ) :
    FreshInv (emit d { s with cpu := cpu, stepping := stepping, advanced := advanced }) := by
  have hcases {msg : Broadcast τ}
      (hmem : msg ∈ unread
        (Stepping.emit d { s with cpu := cpu, stepping := stepping, advanced := advanced })) :
      msg ∈ unread s ∨ msg.serial = s.emitted := by
    simp only [unread, Stepping.emit, List.mem_append, List.mem_singleton] at hmem ⊢
    rcases hmem with ((hmem | rfl) | hmem) | hmem
    · exact Or.inl (Or.inl (Or.inl hmem))
    · exact Or.inr rfl
    · exact Or.inl (Or.inl (Or.inr hmem))
    · exact Or.inl (Or.inr hmem)
  constructor
  · intro msg hmem
    show msg.serial < s.emitted + 1
    rcases hcases hmem with hmem | heq
    · exact Nat.lt_succ_of_lt (h.numbered msg hmem)
    · omega
  · exact Nat.le_succ_of_le h.marked
  · intro n saw hconf msg hmem hlt
    rcases hcases hmem with hmem | heq
    · exact h.stale n saw hconf msg hmem hlt
    · have hmark : msg.serial < s.mark := hlt
      have := h.marked
      omega
  · exact h.fresh

omit [DecidableEq τ] in
/-- What is unread after a requeue was unread before. -/
theorem mem_unread_requeue {msg : Broadcast τ} (h : msg ∈ unread (requeue observed s)) :
    msg ∈ unread s := by
  simp only [unread, requeue, List.mem_append, List.not_mem_nil, or_false] at h ⊢
  rcases h with h | h
  · exact Or.inl (Or.inl h)
  · rcases mem_foldl_pushDropOldest h with h | h
    · exact Or.inl (Or.inr h)
    · exact Or.inr h

omit [DecidableEq τ] in
/-- A delivered broadcast was unread before. -/
theorem mem_unread_deliver {i : ℕ} {msg b : Broadcast τ} (hmsg : s.wire[i]? = some msg)
    (h : b ∈ unread { s with
      wire := s.wire.eraseIdx i
      queue := pushDropOldest (queueMax observed) s.queue msg }) : b ∈ unread s := by
  have hwire : msg ∈ s.wire := List.mem_of_getElem? hmsg
  simp only [unread, List.mem_append] at h ⊢
  rcases h with (h | h) | h
  · exact Or.inl (Or.inl (List.mem_of_mem_eraseIdx h))
  · rcases mem_pushDropOldest h with h | rfl
    · exact Or.inl (Or.inr h)
    · exact Or.inl (Or.inl hwire)
  · exact Or.inr h

omit [DecidableEq τ] in
/-- Losing a broadcast leaves fewer unread. -/
theorem mem_unread_lose {i : ℕ} {b : Broadcast τ}
    (h : b ∈ unread { s with wire := s.wire.eraseIdx i }) : b ∈ unread s := by
  simp only [unread, List.mem_append] at h ⊢
  rcases h with (h | h) | h
  · exact Or.inl (Or.inl (List.mem_of_mem_eraseIdx h))
  · exact Or.inl (Or.inr h)
  · exact Or.inr h

theorem FreshInv.raiseCall (h : FreshInv s) : FreshInv (raiseCall observed s) :=
  h.shrink (fun _ hmem => mem_unread_requeue hmem) ⟨rfl, rfl, rfl, rfl⟩
    (by simp [Stepping.raiseCall])

/-- A call may return a broadcast that is no older than its mark. -/
theorem FreshInv.finishCall (h : FreshInv s) (result : Report τ)
    (confirmation : Option (Broadcast τ))
    (hconfirm : ∀ msg, confirmation = some msg → s.mark ≤ msg.serial) :
    FreshInv (finishCall observed s result confirmation) := by
  unfold Stepping.finishCall
  split
  · refine ⟨fun msg hmem => h.numbered msg (mem_unread_requeue hmem), h.marked, by simp, ?_⟩
    intro r hr msg hmsg
    rcases List.mem_append.mp hr with hr | hr
    · exact h.fresh r hr msg hmsg
    · obtain rfl := List.mem_singleton.mp hr
      exact hconfirm msg hmsg
  · exact h.raiseCall

/-- Sending a command again or for the pause. -/
theorem FreshInv.send (h : FreshInv s) (command : Command) : FreshInv (send s command) :=
  h.shrink (fun _ hmem => hmem) ⟨rfl, rfl, rfl, rfl⟩ fun n saw hconf => ⟨n, saw, hconf⟩

/-- Sending the first command of a call while the filter rejects everything unread. -/
theorem FreshInv.fire (h : FreshInv s) {report : Report τ}
    (hquiet : ∀ msg ∈ unread s, accepts (preOf d report) msg.report = false) :
    FreshInv (fire d s report) :=
  ⟨h.numbered, Nat.le_refl _, fun _ _ _ msg hmem _ => hquiet msg hmem, h.fresh⟩

/-- Taking one broadcast while waiting. -/
theorem FreshInv.takeBroadcast (h : FreshInv s) {n : ℕ} {saw : Bool}
    (hphase : s.phase = .confirming n saw) : FreshInv (takeBroadcast observed s n) := by
  unfold Stepping.takeBroadcast
  split
  · exact h
  · rename_i msg rest hqueue
    have hmem : msg ∈ unread s := by simp [unread, hqueue]
    have hrest : FreshInv { s with queue := rest } := by
      refine h.shrink (fun b hb => ?_) ⟨rfl, rfl, rfl, rfl⟩ fun n saw hconf => ⟨n, saw, hconf⟩
      simp only [unread, hqueue, List.mem_append, List.mem_cons] at hb ⊢
      tauto
    -- What passes the filter was emitted after the command was sent.
    have hpass (hacc : accepts s.pre msg.report = true) :
        ∀ b, some msg = some b → s.mark ≤ b.serial := by
      rintro b ⟨⟩
      by_contra hlt
      have := h.stale n saw hphase msg hmem (Nat.lt_of_not_le hlt)
      rw [hacc] at this
      exact absurd this (by decide)
    split
    · unfold judge
      split
      · rename_i hacc
        exact hrest.finishCall _ _ (hpass hacc)
      · split
        · exact hrest.raiseCall
        · refine FreshInv.send ?_ _
          exact hrest.shrink (fun _ hb => hb) ⟨rfl, rfl, rfl, rfl⟩ fun _ _ _ => ⟨n, saw, hphase⟩
    · unfold filterBroadcast
      split
      · rename_i hacc
        exact hrest.finishCall _ _ (hpass hacc)
      · refine h.shrink (fun b hb => ?_) ⟨rfl, rfl, rfl, rfl⟩ fun _ _ _ => ⟨n, saw, hphase⟩
        cases observed <;>
          simp only [unread, hqueue, List.mem_append, List.mem_cons, if_true, if_false,
            Bool.false_eq_true] at hb ⊢ <;> tauto

/-- Every step that sends its command fresh keeps the invariant. -/
theorem freshInv_step {e : Event σ} (h : FreshInv s) (hfires : FiresFresh d s e)
    (hstep : (machine d observed).step s e = some t) : FreshInv t := by
  -- Fields that the invariant does not read may change freely.
  have hkeep {u : State σ τ} (hu : unread u = unread s)
      (hsame : u.emitted = s.emitted ∧ u.mark = s.mark ∧ u.pre = s.pre ∧
        u.returned = s.returned)
      (hphase : ∀ n saw, u.phase = .confirming n saw → s.phase = .confirming n saw) :
      FreshInv u :=
    h.shrink (fun msg hmem => by rwa [hu] at hmem) hsame fun n saw hc => ⟨n, saw, hphase n saw hc⟩
  cases takes_of_step hstep with
  | callStart _ => exact hkeep rfl ⟨rfl, rfl, rfl, rfl⟩ (by simp)
  | answerStatus _ => exact hkeep rfl ⟨rfl, rfl, rfl, rfl⟩ fun _ _ hc => hc
  | @readStatus stepping report hreply =>
    unfold Stepping.readStatus
    split
    · rename_i hphase
      split
      · rename_i hstepping
        subst hstepping
        exact h.fire (hfires report (by simp [firesAt, hphase, hreply]))
      · exact hkeep rfl ⟨rfl, rfl, rfl, rfl⟩ (by simp)
    · refine FreshInv.send ?_ _
      exact hkeep rfl ⟨rfl, rfl, rfl, rfl⟩ (by simp)
    · rename_i hphase
      split
      · exact hkeep rfl ⟨rfl, rfl, rfl, rfl⟩ (by simp)
      · exact hkeep rfl ⟨rfl, rfl, rfl, rfl⟩ fun _ _ hc => hc
    · rename_i hphase
      exact h.fire (hfires report (by simp [firesAt, hphase, hreply]))
    · split
      · exact h.finishCall _ _ (by simp)
      · exact hkeep rfl ⟨rfl, rfl, rfl, rfl⟩ fun _ _ hc => hc
    · exact h
  | pauseProbeFails _ =>
    refine FreshInv.send ?_ _
    exact hkeep rfl ⟨rfl, rfl, rfl, rfl⟩ (by simp)
  | takeBroadcast hphase => exact h.takeBroadcast hphase
  | confirmTimeout _ =>
    unfold Stepping.confirmTimeout
    split
    · exact h.raiseCall
    · exact h.shrink (fun _ hmem => mem_unread_requeue hmem) ⟨rfl, rfl, rfl, rfl⟩ (by simp)
  | callRaises _ => exact h.raiseCall
  | @consume i command call _ =>
    have hinbox : FreshInv { s with inbox := s.inbox.eraseIdx i } :=
      hkeep rfl ⟨rfl, rfl, rfl, rfl⟩ fun _ _ hc => hc
    have hstop : FreshInv { s with inbox := s.inbox.eraseIdx i, stepping := false } :=
      hkeep rfl ⟨rfl, rfl, rfl, rfl⟩ fun _ _ hc => hc
    unfold Stepping.consume
    split <;> split <;> first
      | exact hinbox
      | exact hstop
      | exact hinbox.emit d _ _ _
  | runs _ => exact hkeep rfl ⟨rfl, rfl, rfl, rfl⟩ fun _ _ hc => hc
  | halts _ => exact h.emit d s.cpu true s.advanced
  | resumes _ => exact hkeep rfl ⟨rfl, rfl, rfl, rfl⟩ fun _ _ hc => hc
  | deliver hmsg =>
    exact h.shrink (fun _ => mem_unread_deliver hmsg) ⟨rfl, rfl, rfl, rfl⟩
      fun n saw hc => ⟨n, saw, hc⟩
  | lose i =>
    exact h.shrink (fun _ => mem_unread_lose) ⟨rfl, rfl, rfl, rfl⟩
      fun n saw hc => ⟨n, saw, hc⟩

/-- In a run that sends each command while its filter rejects everything unread, every
confirmation was emitted after its command was sent. -/
theorem fresh_of_reaches {cpu : σ} {stepping : Bool}
    (h : (machine d observed).Reaches (FiresFresh d) (init τ cpu stepping) s) : Fresh s := by
  have hinit : FreshInv (init τ cpu stepping) := by
    constructor <;> simp [init, unread, Fresh]
  have hrun : FreshInv s :=
    h.invariant (P := FreshInv) hinit fun t e u ht hfires hstep => freshInv_step ht hfires hstep
  exact hrun.fresh

end Fresh

/-- A CPU that steps already is stepped once, and the step confirms it. -/
def freshRun : List (Event ℕ) :=
  [.callStart (.step .stepInto), .answerStatus, .readStatus, .consume 0, .deliver 0,
   .takeBroadcast]

/-- The confirmation of that run is fresh. -/
theorem fresh_freshRun :
    ∃ s, (machine countingCpu true).run (init ℕ 0 true) freshRun = some s ∧
      s.returned.length = 1 ∧ Fresh s := by
  refine ⟨_, rfl, rfl, ?_⟩
  have hrun : (machine countingCpu true).Reaches (FiresFresh countingCpu) (init ℕ 0 true) _ :=
    Machine.reaches_of_runWith freshRun rfl
  exact fresh_of_reaches hrun

/-- A breakpoint hit stays buffered, the CPU runs on and is halted again, and `run_until`
takes the broadcast of the first hit. -/
def breakpointRun : List (Event ℕ) :=
  [.halts, .deliver 0, .resumes, .runs 9, .halts, .callStart (.runUntil 0x08900000),
   .answerStatus, .readStatus, .takeBroadcast]

/-- That call returns a broadcast emitted before its command was sent. -/
theorem stale_breakpoint :
    ∃ s, (machine countingCpu true).Reachable (init ℕ 0 false) s ∧ ¬ Fresh s := by
  refine ⟨_, Machine.reachable_of_run breakpointRun rfl, fun hfresh => ?_⟩
  have hle := hfresh _ List.mem_cons_self _ rfl
  exact absurd hle (by decide)

end Stepping
