import Mathlib.Algebra.GroupWithZero.Nat
import PpssppDfx.Stepping.Fresh

/-!
# Whether a single step advances the CPU once

The retry loop sends the command again whenever a broadcast shows the state from before
the command. A pause that precedes the step produces such a broadcast too, and nothing
removes it, so a step of a running CPU takes it for a step without effect and is sent
twice.

## Main results

* `exactSteps_of_reaches` — single steps advance the CPU by one each in runs where
  nothing is left over when their command is sent
* `double_step` — a run in which one call advances a CPU by two
-/

set_option autoImplicit false

namespace Stepping

open Semantics

section Exact

variable {σ τ : Type*} [DecidableEq τ] {d : Debuggee σ τ} {observed : Bool}

/-- The CPU after the step of a call. -/
def CallKind.advance (d : Debuggee σ τ) (kind : CallKind) (cpu : σ) : σ :=
  match kind with
  | .step k => d.advance k cpu
  | _ => cpu

/-- Commands on their way other than pauses, which a stepping CPU ignores. -/
def inFlight (s : State σ τ) : List (Command × ℕ) :=
  s.inbox.filter fun c => decide (c.1 ≠ .stepping)

/-- Nothing is left over when a single step sends its command: no unread broadcast, no
command in flight, a CPU that steps, and a step that changes what the filter compares. -/
def NothingLeftOver (d : Debuggee σ τ) (s : State σ τ) (report : Report τ) : Prop :=
  (unread s).isEmpty = true ∧ (inFlight s).isEmpty = true ∧ s.stepping = true ∧
    accepts (preOf d report) (reportOf d (s.kind.advance d s.cpu)) = true

/-- The step returns the call because a poll saw a stepping CPU. -/
def pollReturns (s : State σ τ) (e : Event σ) : Bool :=
  match e, s.phase, s.reply with
  | .readStatus, .polling, some (true, _) => true
  | _, _, _ => false

/-- A step that starts a single step with nothing left over, and believes a poll only
once the command was consumed. -/
def StepsCleanly (d : Debuggee σ τ) (s : State σ τ) (e : Event σ) : Prop :=
  s.kind.isSingle = true →
    (∀ report ∈ firesAt s e, NothingLeftOver d s report) ∧
      (pollReturns s e = true → (inFlight s).isEmpty = true)

instance (d : Debuggee σ τ) (s : State σ τ) (report : Report τ) :
    Decidable (NothingLeftOver d s report) :=
  inferInstanceAs (Decidable (_ ∧ _ ∧ _ ∧ _))

instance (d : Debuggee σ τ) (s : State σ τ) (e : Event σ) : Decidable (StepsCleanly d s e) :=
  inferInstanceAs (Decidable (_ → _ ∧ _))

/-- Single steps that returned have advanced the CPU by one step each. -/
structure ExactSteps (s : State σ τ) : Prop where
  each : ∀ r ∈ s.returned, r.kind.isSingle = true → s.advanced r.call = 1
  total : ((s.returned.filter fun r => r.kind.isSingle).map fun r => s.advanced r.call).sum =
    (s.returned.filter fun r => r.kind.isSingle).length

variable {s t : State σ τ}

/-- The command of the call is in flight and nothing else is. -/
structure Unconsumed (d : Debuggee σ τ) (s : State σ τ) : Prop where
  inbox : inFlight s = [(s.kind.command, s.call)]
  unread : unread s = []
  stepping : s.stepping = true
  advanced : s.advanced s.call = 0
  changes : accepts s.pre (reportOf d (s.kind.advance d s.cpu)) = true

/-- The command of the call was consumed, and only its broadcast is unread. -/
structure Consumed (s : State σ τ) : Prop where
  inbox : inFlight s = []
  unread : ∀ msg ∈ unread s, accepts s.pre msg.report = true
  stepping : s.stepping = true
  advanced : s.advanced s.call = 1

/-- What holds of a call in each phase. -/
def PhaseInv (d : Debuggee σ τ) (s : State σ τ) : Phase → Prop
  | .idle => True
  | .confirming n saw => s.kind.isSingle = true →
    n = 0 ∧ saw = false ∧ (Unconsumed d s ∨ Consumed s)
  | .polling => s.kind.isSingle = true → Unconsumed d s ∨ Consumed s
  | _ => s.advanced s.call = 0 ∧ ∀ c ∈ s.inbox, c.2 = s.call → c.1 = .stepping

/-- What holds between two steps. -/
structure ExactInv (d : Debuggee σ τ) (s : State σ τ) : Prop where
  each : ∀ r ∈ s.returned, r.kind.isSingle = true → s.advanced r.call = 1
  past : ∀ r ∈ s.returned, r.call ≤ s.call ∧ (s.phase ≠ .idle → r.call < s.call)
  spent : ∀ r ∈ s.returned, r.kind.isSingle = true → ∀ c ∈ inFlight s, c.2 ≠ r.call
  tagged : ∀ c ∈ s.inbox, c.2 ≤ s.call
  future : ∀ i, s.call < i → s.advanced i = 0
  phase : PhaseInv d s s.phase

omit [DecidableEq τ] in
/-- Consuming a command takes it out of those in flight, if it is one of them. -/
theorem inFlight_eraseIdx {i : ℕ} {c : Command × ℕ} (hmem : s.inbox[i]? = some c) :
    ∃ before after, inFlight { s with inbox := s.inbox.eraseIdx i } = before ++ after ∧
      inFlight s = before ++ (if c.1 = .stepping then [] else [c]) ++ after := by
  obtain ⟨hlt, rfl⟩ := List.getElem?_eq_some_iff.mp hmem
  let live : Command × ℕ → Bool := fun c => decide (c.1 ≠ .stepping)
  refine ⟨(s.inbox.take i).filter live, (s.inbox.drop (i + 1)).filter live, ?_, ?_⟩
  · simp only [inFlight, live]
    rw [List.eraseIdx_eq_take_drop_succ, List.filter_append]
  · have hsplit : s.inbox = s.inbox.take i ++ s.inbox[i] :: s.inbox.drop (i + 1) := by
      rw [← List.drop_eq_getElem_cons hlt, List.take_append_drop]
    have hfilter := congrArg (List.filter live) hsplit
    rw [List.filter_append, List.filter_cons] at hfilter
    rw [inFlight, hfilter, List.append_assoc]
    by_cases hpause : s.inbox[i].1 = .stepping <;> simp [live, hpause]

omit [DecidableEq τ] in
/-- What is in flight after a command was consumed was in flight before. -/
theorem mem_inFlight_eraseIdx {i : ℕ} {c : Command × ℕ}
    (h : c ∈ inFlight { s with inbox := s.inbox.eraseIdx i }) : c ∈ inFlight s := by
  obtain ⟨hmem, hpause⟩ := List.mem_filter.mp h
  exact List.mem_filter.mpr ⟨List.mem_of_mem_eraseIdx hmem, hpause⟩

/-- No call's own command is a pause. -/
theorem CallKind.command_ne_stepping (kind : CallKind) : kind.command ≠ .stepping := by
  cases kind <;> simp [CallKind.command]

omit [DecidableEq τ] in
/-- A call's own command is in flight once it is sent. -/
theorem inFlight_send (kind : CallKind) (call : ℕ) (hinbox : t.inbox = s.inbox ++
    [(kind.command, call)]) : inFlight t = inFlight s ++ [(kind.command, call)] := by
  simp [inFlight, hinbox, kind.command_ne_stepping]

/-- Steps that touch neither the calls nor the inbox. -/
theorem ExactInv.congr (h : ExactInv d s)
    (hsame : t.returned = s.returned ∧ t.inbox = s.inbox ∧ t.call = s.call ∧
      t.advanced = s.advanced)
    (hidle : t.phase ≠ .idle → s.phase ≠ .idle) (hphase : PhaseInv d t t.phase) :
    ExactInv d t := by
  obtain ⟨hreturned, hinbox, hcall, hadvanced⟩ := hsame
  constructor
  · rw [hreturned, hadvanced]; exact h.each
  · rw [hreturned, hcall]
    exact fun r hr => ⟨(h.past r hr).1, fun hp => (h.past r hr).2 (hidle hp)⟩
  · rw [hreturned, inFlight, hinbox]; exact h.spent
  · rw [hinbox, hcall]; exact h.tagged
  · rw [hcall, hadvanced]; exact h.future
  · exact hphase

theorem ExactInv.raiseCall (h : ExactInv d s) : ExactInv d (raiseCall observed s) :=
  h.congr ⟨rfl, rfl, rfl, rfl⟩ (by simp [Stepping.raiseCall]) trivial

/-- A call returns: a single step only after its command was consumed. -/
theorem ExactInv.finishCall (h : ExactInv d s)
    (hconsumed : s.kind.isSingle = true → Consumed s) (result : Report τ)
    (confirmation : Option (Broadcast τ)) :
    ExactInv d (finishCall observed s result confirmation) := by
  unfold Stepping.finishCall
  split
  · have hcases {r : Returned τ}
        (hr : r ∈ s.returned ++ [⟨s.call, s.kind, s.mark, confirmation⟩]) :
        r ∈ s.returned ∨ r = ⟨s.call, s.kind, s.mark, confirmation⟩ := by
      simpa using hr
    constructor
    · intro r hr hsingle
      rcases hcases hr with hr | rfl
      · exact h.each r hr hsingle
      · exact (hconsumed hsingle).advanced
    · intro r hr
      refine ⟨?_, by simp⟩
      rcases hcases hr with hr | rfl
      · exact (h.past r hr).1
      · exact Nat.le_refl _
    · intro r hr hsingle c hc
      rcases hcases hr with hr | rfl
      · exact h.spent r hr hsingle c hc
      · have hinbox : inFlight s = [] := (hconsumed hsingle).inbox
        have hmem : c ∈ inFlight s := hc
        rw [hinbox] at hmem
        exact absurd hmem List.not_mem_nil
    · exact h.tagged
    · exact h.future
    · trivial
  · exact h.raiseCall

/-- A call sends a command. -/
theorem ExactInv.send (h : ExactInv d s) (hactive : s.phase ≠ .idle) {command : Command}
    (hsame : t.returned = s.returned ∧ t.inbox = s.inbox ++ [(command, s.call)] ∧
      t.call = s.call ∧ t.advanced = s.advanced)
    (hphase : PhaseInv d t t.phase) : ExactInv d t := by
  obtain ⟨hreturned, hinbox, hcall, hadvanced⟩ := hsame
  constructor
  · rw [hreturned, hadvanced]; exact h.each
  · rw [hreturned, hcall]
    exact fun r hr => ⟨(h.past r hr).1, fun _ => (h.past r hr).2 hactive⟩
  · rw [hreturned, inFlight, hinbox, List.filter_append]
    intro r hr hsingle c hc
    rcases List.mem_append.mp hc with hc | hc
    · exact h.spent r hr hsingle c hc
    · obtain rfl := List.mem_singleton.mp (List.mem_filter.mp hc).1
      exact Nat.ne_of_gt ((h.past r hr).2 hactive)
  · rw [hinbox, hcall]
    intro c hc
    rcases List.mem_append.mp hc with hc | hc
    · exact h.tagged c hc
    · obtain rfl := List.mem_singleton.mp hc
      exact Nat.le_refl _
  · rw [hcall, hadvanced]; exact h.future
  · exact hphase

/-- A call sends its command; a single step does so with nothing left over. -/
theorem ExactInv.fire (h : ExactInv d s) (hactive : s.phase ≠ .idle) {report : Report τ}
    (hzero : s.advanced s.call = 0)
    (hclean : s.kind.isSingle = true → NothingLeftOver d s report) :
    ExactInv d (fire d s report) := by
  refine h.send hactive ⟨rfl, rfl, rfl, rfl⟩ ?_
  intro hsingle
  obtain ⟨hunread, hinbox, hstepping, hchanges⟩ := hclean hsingle
  refine ⟨rfl, rfl, Or.inl ⟨?_, List.isEmpty_iff.mp hunread, hstepping, hzero, hchanges⟩⟩
  rw [inFlight_send (s := s) (t := Stepping.fire d s report) s.kind s.call rfl,
    List.isEmpty_iff.mp hinbox, List.nil_append]
  rfl

/-- Before the command is sent, the pause may be. -/
theorem ExactInv.sendPause (h : ExactInv d s) (hphase : s.phase = .pauseProbing) :
    ExactInv d (sendPause s) := by
  have hinv := h.phase
  rw [hphase] at hinv
  obtain ⟨hzero, honly⟩ := hinv
  refine h.send (by rw [hphase]; simp) ⟨rfl, rfl, rfl, rfl⟩ ⟨hzero, ?_⟩
  intro c hc hcall
  rcases List.mem_append.mp hc with hc | hc
  · exact honly c hc hcall
  · obtain rfl := List.mem_singleton.mp hc
    rfl

/-- What is unread and does not pass the filter of a waiting single step does not exist. -/
theorem ExactInv.consumed_of_mem (h : ExactInv d s) {n : ℕ} {saw : Bool}
    (hphase : s.phase = .confirming n saw) (hsingle : s.kind.isSingle = true)
    {msg : Broadcast τ} (hmem : msg ∈ unread s) : Consumed s := by
  have hinv := h.phase
  rw [hphase] at hinv
  rcases (hinv hsingle).2.2 with hwait | hdone
  · rw [hwait.unread] at hmem
    exact absurd hmem List.not_mem_nil
  · exact hdone

/-- Taking one broadcast while waiting. -/
theorem ExactInv.takeBroadcast (h : ExactInv d s) {n : ℕ} {saw : Bool}
    (hphase : s.phase = .confirming n saw) : ExactInv d (takeBroadcast observed s n) := by
  have hactive : s.phase ≠ .idle := by rw [hphase]; simp
  unfold Stepping.takeBroadcast
  split
  · exact h
  · rename_i msg rest hqueue
    have hmem : msg ∈ unread s := by simp [unread, hqueue]
    have hrest (hsingle : s.kind.isSingle = true) : Consumed { s with queue := rest } := by
      have hdone := h.consumed_of_mem hphase hsingle hmem
      refine ⟨hdone.inbox, fun b hb => hdone.unread b ?_, hdone.stepping, hdone.advanced⟩
      simp only [unread, hqueue, List.mem_append, List.mem_cons] at hb ⊢
      tauto
    have hpop : ExactInv d { s with queue := rest } := by
      refine h.congr ⟨rfl, rfl, rfl, rfl⟩ id ?_
      have hinv := h.phase
      rw [hphase] at hinv
      have hnext : PhaseInv d { s with queue := rest } (.confirming n saw) := fun hsingle =>
        ⟨(hinv hsingle).1, (hinv hsingle).2.1, Or.inr (hrest hsingle)⟩
      exact (congrArg (PhaseInv d _) hphase).mpr hnext
    -- A single step that sees a broadcast sees its own.
    have hpass (hsingle : s.kind.isSingle = true) : accepts s.pre msg.report = true :=
      (h.consumed_of_mem hphase hsingle hmem).unread msg hmem
    split
    · unfold judge
      split
      · exact hpop.finishCall hrest _ _
      · rename_i hreject
        split
        · exact hpop.raiseCall
        · refine hpop.send hactive ⟨rfl, rfl, rfl, rfl⟩ fun hsingle => ?_
          exact absurd (hpass hsingle) hreject
    · rename_i hkind
      unfold filterBroadcast
      split
      · exact hpop.finishCall hrest _ _
      · rename_i hreject
        refine h.congr ⟨rfl, rfl, rfl, rfl⟩ (fun _ => hactive) fun hsingle => ?_
        exact absurd (hpass hsingle) hreject

/-- A single step waits for its confirmation. -/
def waits (s : State σ τ) : Bool :=
  s.kind.isSingle && match s.phase with
    | .confirming _ _ => true
    | .polling => true
    | _ => false

/-- The command of a waiting single step is on its way or was consumed. -/
theorem ExactInv.waiting (h : ExactInv d s) (hwaits : waits s = true) :
    Unconsumed d s ∨ Consumed s := by
  have hinv := h.phase
  simp only [waits, Bool.and_eq_true] at hwaits
  obtain ⟨hsingle, hphase⟩ := hwaits
  split at hphase
  · rename_i n saw heq
    rw [heq] at hinv
    exact (hinv hsingle).2.2
  · rename_i heq
    rw [heq] at hinv
    exact hinv hsingle
  · exact absurd hphase (by decide)

/-- A waiting single step keeps its phase while its command is on its way or consumed. -/
theorem ExactInv.phase_of_waiting (h : ExactInv d s) (hwaits : waits s = true)
    (hphase : t.phase = s.phase) (hnext : Unconsumed d t ∨ Consumed t) :
    PhaseInv d t t.phase := by
  have hinv := h.phase
  rw [hphase]
  simp only [waits, Bool.and_eq_true] at hwaits
  obtain ⟨hsingle, hconf⟩ := hwaits
  split at hconf
  · rename_i n saw heq
    rw [heq] at hinv ⊢
    exact fun _ => ⟨(hinv hsingle).1, (hinv hsingle).2.1, hnext⟩
  · rename_i heq
    rw [heq]
    exact fun _ => hnext
  · exact absurd hconf (by decide)

/-- Outside of a waiting single step the phase does not look at the emulator. -/
theorem ExactInv.phase_of_not_waiting (h : ExactInv d s) (hwaits : waits s = false)
    (hsame : t.phase = s.phase ∧ t.kind = s.kind ∧ t.call = s.call)
    (hadvanced : (∀ c ∈ s.inbox, c.2 = s.call → c.1 = .stepping) →
      t.advanced s.call = s.advanced s.call)
    (hinbox : ∀ c ∈ t.inbox, c ∈ s.inbox) : PhaseInv d t t.phase := by
  obtain ⟨hphase, hkind, hcall⟩ := hsame
  have hinv := h.phase
  have hprep (hpre : s.advanced s.call = 0 ∧ ∀ c ∈ s.inbox, c.2 = s.call → c.1 = .stepping) :
      t.advanced t.call = 0 ∧ ∀ c ∈ t.inbox, c.2 = t.call → c.1 = .stepping := by
    rw [hcall]
    exact ⟨(hadvanced hpre.2).trans hpre.1, fun c hc => hpre.2 c (hinbox c hc)⟩
  have hsingle {p : Phase} (hp : s.phase = p)
      (hwaiting : (∃ n saw, p = .confirming n saw) ∨ p = .polling) :
      t.kind.isSingle = false := by
    rw [hkind]
    rcases hwaiting with ⟨n, saw, rfl⟩ | rfl <;> simpa [waits, hp] using hwaits
  rw [hphase]
  cases hp : s.phase with
  | idle => trivial
  | confirming n saw =>
    intro hs
    rw [hsingle hp (Or.inl ⟨n, saw, rfl⟩)] at hs
    exact absurd hs (by decide)
  | polling =>
    intro hs
    rw [hsingle hp (Or.inr rfl)] at hs
    exact absurd hs (by decide)
  | probing => rw [hp] at hinv; exact hprep hinv
  | pauseProbing => rw [hp] at hinv; exact hprep hinv
  | pausing => rw [hp] at hinv; exact hprep hinv
  | probingAgain => rw [hp] at hinv; exact hprep hinv

/-- A waiting single step has a stepping CPU. -/
theorem ExactInv.not_waiting (h : ExactInv d s) (hrunning : s.stepping = false) :
    waits s = false := by
  cases hwaits : waits s with
  | false => rfl
  | true =>
    rcases h.waiting hwaits with hwait | hdone
    · exact absurd (hwait.stepping.symm.trans hrunning) (by decide)
    · exact absurd (hdone.stepping.symm.trans hrunning) (by decide)

/-- Consuming a command that advances nothing. -/
theorem ExactInv.consumeQuiet (h : ExactInv d s) (i : ℕ)
    (hsame : t.returned = s.returned ∧ t.inbox = s.inbox.eraseIdx i ∧ t.call = s.call ∧
      t.advanced = s.advanced ∧ t.phase = s.phase) (hnext : PhaseInv d t t.phase) :
    ExactInv d t := by
  obtain ⟨hreturned, hinbox, hcall, hadvanced, hphase⟩ := hsame
  constructor
  · rw [hreturned, hadvanced]; exact h.each
  · rw [hreturned, hcall, hphase]; exact h.past
  · rw [hreturned, inFlight, hinbox]
    exact fun r hr hsingle c hc => h.spent r hr hsingle c (mem_inFlight_eraseIdx hc)
  · rw [hcall, hinbox]
    exact fun c hc => h.tagged c (List.mem_of_mem_eraseIdx hc)
  · rw [hcall, hadvanced]; exact h.future
  · exact hnext

/-- Consuming a step command outside of a waiting single step advances the CPU for its
own call only. -/
theorem ExactInv.consumeStep (h : ExactInv d s) (hwaits : waits s = false) {i : ℕ}
    {kind : StepKind} {call : ℕ} (hmem : s.inbox[i]? = some (.step kind, call))
    (hsame : t.returned = s.returned ∧ t.inbox = s.inbox.eraseIdx i ∧ t.call = s.call ∧
      t.advanced = Function.update s.advanced call (s.advanced call + 1) ∧
      t.phase = s.phase ∧ t.kind = s.kind) : ExactInv d t := by
  obtain ⟨hreturned, hinbox, hcall, hadvanced, hphase, hkind⟩ := hsame
  have hin : (Command.step kind, call) ∈ s.inbox := List.mem_of_getElem? hmem
  have hflight : (Command.step kind, call) ∈ inFlight s :=
    List.mem_filter.mpr ⟨hin, by simp⟩
  have hsub {c : Command × ℕ} (hc : c ∈ t.inbox) : c ∈ s.inbox := by
    rw [hinbox] at hc
    exact List.mem_of_mem_eraseIdx hc
  have hother {j : ℕ} (hj : call ≠ j) : t.advanced j = s.advanced j := by
    rw [hadvanced, Function.update_of_ne hj.symm]
  constructor
  · rw [hreturned]
    intro r hr hsingle
    rw [hother (h.spent r hr hsingle _ hflight)]
    exact h.each r hr hsingle
  · rw [hreturned, hcall, hphase]; exact h.past
  · rw [hreturned, inFlight, hinbox]
    exact fun r hr hsingle c hc => h.spent r hr hsingle c (mem_inFlight_eraseIdx hc)
  · rw [hcall]
    exact fun c hc => h.tagged c (hsub hc)
  · rw [hcall]
    intro j hj
    have hle : call ≤ s.call := h.tagged _ hin
    rw [hother (by omega)]
    exact h.future j hj
  · refine h.phase_of_not_waiting hwaits ⟨hphase, hkind, hcall⟩ (fun honly => ?_)
      fun c hc => hsub hc
    refine hother fun hown => ?_
    exact absurd (honly _ hin hown) (by simp)

/-- A stepping CPU ignores a pause. -/
theorem ExactInv.consumePause (h : ExactInv d s) (hwaits : waits s = true) {i call : ℕ}
    (hmem : s.inbox[i]? = some (.stepping, call)) :
    ExactInv d { s with inbox := s.inbox.eraseIdx i } := by
  obtain ⟨before, after, hafter, hbefore⟩ := inFlight_eraseIdx hmem
  have hsame : inFlight { s with inbox := s.inbox.eraseIdx i } = inFlight s := by
    rw [hafter, hbefore]; simp
  refine h.consumeQuiet i ⟨rfl, rfl, rfl, rfl, rfl⟩ ?_
  refine h.phase_of_waiting hwaits rfl ?_
  rcases h.waiting hwaits with hwait | hdone
  · exact Or.inl ⟨hsame.trans hwait.inbox, hwait.unread, hwait.stepping, hwait.advanced,
      hwait.changes⟩
  · exact Or.inr ⟨hsame.trans hdone.inbox, hdone.unread, hdone.stepping, hdone.advanced⟩

/-- The emulator consumes the command of a waiting single step. -/
theorem ExactInv.consumeOwn (h : ExactInv d s) (hwaits : waits s = true) {i : ℕ}
    {command : Command} {call : ℕ} (hmem : s.inbox[i]? = some (command, call))
    (hcommand : command ≠ .stepping) :
    ExactInv d (consume d { s with inbox := s.inbox.eraseIdx i } command call) := by
  obtain ⟨before, after, hafter, hbefore⟩ := inFlight_eraseIdx hmem
  rw [if_neg hcommand] at hbefore
  rcases h.waiting hwaits with hwait | hdone
  · have hactive : s.phase ≠ .idle := by
      intro hidle
      simp [waits, hidle] at hwaits
    have hsingle : s.kind.isSingle = true := by
      simp only [waits, Bool.and_eq_true] at hwaits
      exact hwaits.1
    obtain ⟨k, hkind, hk⟩ : ∃ k, s.kind = .step k ∧ k ≠ .stepOut := by
      cases hkind : s.kind with
      | step k => cases k <;> simp_all [CallKind.isSingle]
      | runUntil address => simp [hkind, CallKind.isSingle] at hsingle
      | nextHle => simp [hkind, CallKind.isSingle] at hsingle
    -- Nothing else is in flight, so the consumed command is the call's own.
    obtain ⟨⟨rfl, rfl⟩, rfl, rfl⟩ :
        (command = .step k ∧ call = s.call) ∧ before = [] ∧ after = [] := by
      rw [hwait.inbox, hkind, List.append_assoc] at hbefore
      cases before with
      | nil => simpa [CallKind.command, eq_comm] using hbefore
      | cons b before => simp at hbefore
    have hconsume : Stepping.consume d { s with inbox := s.inbox.eraseIdx i } (.step k) s.call =
        emit d { s with
          inbox := s.inbox.eraseIdx i
          cpu := d.advance k s.cpu
          advanced := Function.update s.advanced s.call 1 } := by
      cases k <;> simp [Stepping.consume, hwait.stepping, hwait.advanced] at hk ⊢
    rw [hconsume]
    have hone : Consumed (emit d { s with
        inbox := s.inbox.eraseIdx i
        cpu := d.advance k s.cpu
        advanced := Function.update s.advanced s.call 1 }) := by
      refine ⟨hafter, ?_, hwait.stepping, by simp [emit]⟩
      intro msg hmsg
      have hnone := hwait.unread
      simp only [unread, List.append_eq_nil_iff] at hnone
      obtain rfl : msg = ⟨s.emitted, reportOf d (d.advance k s.cpu)⟩ := by
        simpa [unread, emit, hnone] using hmsg
      have hchanges := hwait.changes
      rw [hkind] at hchanges
      exact hchanges
    constructor
    · intro r hr hsingle'
      have hne : r.call ≠ s.call := Nat.ne_of_lt ((h.past r hr).2 hactive)
      show Function.update s.advanced s.call 1 r.call = 1
      rw [Function.update_of_ne hne]
      exact h.each r hr hsingle'
    · exact h.past
    · intro r hr _ c hc
      have hnone : c ∈ inFlight { s with inbox := s.inbox.eraseIdx i } := hc
      rw [hafter] at hnone
      exact absurd hnone List.not_mem_nil
    · exact fun c hc => h.tagged c (List.mem_of_mem_eraseIdx hc)
    · intro j hj
      have hlt : s.call < j := hj
      show Function.update s.advanced s.call 1 j = 0
      rw [Function.update_of_ne (by omega)]
      exact h.future j hlt
    · exact h.phase_of_waiting hwaits rfl (Or.inr hone)
  · rw [hdone.inbox] at hbefore
    simp at hbefore

/-- Steps that leave the calls and the commands alone, and take broadcasts away. -/
theorem ExactInv.shrink (h : ExactInv d s)
    (hsame : t.returned = s.returned ∧ t.inbox = s.inbox ∧ t.call = s.call ∧
      t.advanced = s.advanced)
    (hphase : t.phase = s.phase ∧ t.kind = s.kind ∧ t.pre = s.pre)
    (hcpu : waits s = true → t.stepping = s.stepping ∧ t.cpu = s.cpu)
    (hunread : ∀ msg ∈ unread t, msg ∈ unread s) : ExactInv d t := by
  obtain ⟨hreturned, hinbox, hcall, hadvanced⟩ := hsame
  obtain ⟨hphase, hkind, hpre⟩ := hphase
  refine h.congr ⟨hreturned, hinbox, hcall, hadvanced⟩ (by rw [hphase]; exact id) ?_
  cases hwaits : waits s with
  | false =>
    exact h.phase_of_not_waiting hwaits ⟨hphase, hkind, hcall⟩ (fun _ => by rw [hadvanced])
      fun c hc => hinbox ▸ hc
  | true =>
    obtain ⟨hstepping, hcpu⟩ := hcpu hwaits
    refine h.phase_of_waiting hwaits hphase ?_
    rcases h.waiting hwaits with hwait | hdone
    · refine Or.inl ⟨?_, ?_, ?_, ?_, ?_⟩
      · rw [inFlight, hinbox, hkind, hcall]; exact hwait.inbox
      · refine List.eq_nil_iff_forall_not_mem.mpr fun msg hmem => ?_
        have hmem := hunread msg hmem
        rw [hwait.unread] at hmem
        exact List.not_mem_nil hmem
      · rw [hstepping]; exact hwait.stepping
      · rw [hadvanced, hcall]; exact hwait.advanced
      · rw [hpre, hkind, hcpu]; exact hwait.changes
    · refine Or.inr ⟨?_, ?_, ?_, ?_⟩
      · rw [inFlight, hinbox]; exact hdone.inbox
      · intro msg hmem
        rw [hpre]
        exact hdone.unread msg (hunread msg hmem)
      · rw [hstepping]; exact hdone.stepping
      · rw [hadvanced, hcall]; exact hdone.advanced

/-- The emulator consumes a command of a call. -/
theorem ExactInv.consume (h : ExactInv d s) {i : ℕ} {command : Command} {call : ℕ}
    (hmem : s.inbox[i]? = some (command, call)) :
    ExactInv d (consume d { s with inbox := s.inbox.eraseIdx i } command call) := by
  cases hwaits : waits s with
  | true =>
    by_cases hcommand : command = .stepping
    · subst hcommand
      have hstepping : s.stepping = true := by
        rcases h.waiting hwaits with hwait | hdone
        · exact hwait.stepping
        · exact hdone.stepping
      have hsame : Stepping.consume d { s with inbox := s.inbox.eraseIdx i } .stepping call =
          { s with inbox := s.inbox.eraseIdx i } := by simp [Stepping.consume, hstepping]
      rw [hsame]
      exact h.consumePause hwaits hmem
    · exact h.consumeOwn hwaits hmem hcommand
  | false =>
    have hquiet {u : State σ τ} (hsame : u.returned = s.returned ∧
        u.inbox = s.inbox.eraseIdx i ∧ u.call = s.call ∧ u.advanced = s.advanced ∧
        u.phase = s.phase) (hkind : u.kind = s.kind) : ExactInv d u := by
      refine h.consumeQuiet i hsame ?_
      obtain ⟨_, hinbox, hcall, hadvanced, hphase⟩ := hsame
      exact h.phase_of_not_waiting hwaits ⟨hphase, hkind, hcall⟩ (fun _ => by rw [hadvanced])
        fun c hc => List.mem_of_mem_eraseIdx (hinbox ▸ hc)
    unfold Stepping.consume
    split <;> split <;> first
      | exact hquiet ⟨rfl, rfl, rfl, rfl, rfl⟩ rfl
      | exact h.consumeStep hwaits hmem ⟨rfl, rfl, rfl, rfl, rfl, rfl⟩

/-- The client reads a status answer. -/
theorem ExactInv.readStatus (h : ExactInv d s) (hclean : StepsCleanly d s .readStatus)
    {stepping : Bool} {report : Report τ} (hreply : s.reply = some (stepping, report)) :
    ExactInv d (readStatus d observed s stepping report) := by
  have hinv := h.phase
  unfold Stepping.readStatus
  split
  · rename_i hphase
    rw [hphase] at hinv
    split
    · rename_i hstepping
      subst hstepping
      exact h.fire (by rw [hphase]; simp) hinv.1 fun hsingle =>
        (hclean hsingle).1 report (by simp [firesAt, hphase, hreply])
    · exact h.congr ⟨rfl, rfl, rfl, rfl⟩ (fun _ => by rw [hphase]; simp) hinv
  · rename_i hphase
    exact h.sendPause hphase
  · rename_i hphase
    rw [hphase] at hinv
    split
    · exact h.congr ⟨rfl, rfl, rfl, rfl⟩ (fun _ => by rw [hphase]; simp) hinv
    · exact h.shrink ⟨rfl, rfl, rfl, rfl⟩ ⟨rfl, rfl, rfl⟩ (fun _ => ⟨rfl, rfl⟩) fun _ => id
  · rename_i hphase
    rw [hphase] at hinv
    exact h.fire (by rw [hphase]; simp) hinv.1 fun hsingle =>
      (hclean hsingle).1 report (by simp [firesAt, hphase, hreply])
  · rename_i hphase
    split
    · rename_i hstepping
      subst hstepping
      refine h.finishCall (fun hsingle => ?_) report none
      -- The poll is believed only once the command was consumed.
      have hinbox := (hclean hsingle).2 (by simp [pollReturns, hphase, hreply])
      rcases h.waiting (by simp [waits, hsingle, hphase]) with hwait | hdone
      · rw [hwait.inbox] at hinbox
        exact absurd hinbox (by simp)
      · exact hdone
    · exact h.shrink ⟨rfl, rfl, rfl, rfl⟩ ⟨rfl, rfl, rfl⟩ (fun _ => ⟨rfl, rfl⟩) fun _ => id
  · exact h

/-- The wait for a broadcast runs out of time. -/
theorem ExactInv.confirmTimeout (h : ExactInv d s) {n : ℕ} {saw : Bool}
    (hphase : s.phase = .confirming n saw) : ExactInv d (confirmTimeout observed s saw) := by
  unfold Stepping.confirmTimeout
  split
  · exact h.raiseCall
  · -- The wait goes on by polling; the requeue only moves broadcasts.
    have hwaiting : ExactInv d (requeue observed s) :=
      h.shrink ⟨rfl, rfl, rfl, rfl⟩ ⟨rfl, rfl, rfl⟩ (fun _ => ⟨rfl, rfl⟩)
        fun _ => mem_unread_requeue
    refine hwaiting.congr ⟨rfl, rfl, rfl, rfl⟩ (fun _ => ?_) fun hsingle => ?_
    · show s.phase ≠ .idle
      rw [hphase]; simp
    · have hwaits : waits (requeue observed s) = true := by
        have hsingle : s.kind.isSingle = true := hsingle
        simp [waits, requeue, hsingle, hphase]
      rcases hwaiting.waiting hwaits with hwait | hdone
      · exact Or.inl ⟨hwait.inbox, hwait.unread, hwait.stepping, hwait.advanced, hwait.changes⟩
      · exact Or.inr ⟨hdone.inbox, hdone.unread, hdone.stepping, hdone.advanced⟩

/-- Every clean step keeps the invariant. -/
theorem exactInv_step {e : Event σ} (h : ExactInv d s) (hclean : StepsCleanly d s e)
    (hstep : (machine d observed).step s e = some t) : ExactInv d t := by
  cases takes_of_step hstep with
  | callStart _ =>
    -- a new call has a larger number than whatever is under way or has returned
    refine ⟨h.each, fun r hr => ?_, h.spent, fun c hc => ?_, fun i hi => ?_, ?_, ?_⟩
    · have hle := (h.past r hr).1
      exact ⟨Nat.le_succ_of_le hle, fun _ => Nat.lt_succ_of_le hle⟩
    · exact Nat.le_succ_of_le (h.tagged c hc)
    · exact h.future i (Nat.lt_of_succ_lt hi)
    · exact h.future _ (Nat.lt_succ_self _)
    · intro c hc heq
      have hle := h.tagged c hc
      have heq : c.2 = s.call + 1 := heq
      omega
  | answerStatus _ =>
    exact h.shrink ⟨rfl, rfl, rfl, rfl⟩ ⟨rfl, rfl, rfl⟩ (fun _ => ⟨rfl, rfl⟩) fun _ => id
  | readStatus hreply => exact h.readStatus hclean hreply
  | pauseProbeFails hphase => exact h.sendPause hphase
  | takeBroadcast hphase => exact h.takeBroadcast hphase
  | confirmTimeout hphase => exact h.confirmTimeout hphase
  | callRaises _ => exact h.raiseCall
  | consume hmem => exact h.consume hmem
  | runs hrunning =>
    refine h.shrink ⟨rfl, rfl, rfl, rfl⟩ ⟨rfl, rfl, rfl⟩ (fun hwaits => ?_) fun _ => id
    -- a CPU that runs by itself is not waited for
    rw [h.not_waiting hrunning] at hwaits
    exact absurd hwaits (by decide)
  | halts hrunning =>
    have hwaits := h.not_waiting hrunning
    refine h.congr ⟨rfl, rfl, rfl, rfl⟩ id ?_
    exact h.phase_of_not_waiting hwaits ⟨rfl, rfl, rfl⟩ (fun _ => rfl) fun _ => id
  | resumes hphase =>
    refine h.shrink ⟨rfl, rfl, rfl, rfl⟩ ⟨rfl, rfl, rfl⟩ (fun hwaits => ?_) fun _ => id
    simp [waits, hphase] at hwaits
  | deliver hmsg =>
    exact h.shrink ⟨rfl, rfl, rfl, rfl⟩ ⟨rfl, rfl, rfl⟩ (fun _ => ⟨rfl, rfl⟩)
      fun _ => mem_unread_deliver hmsg
  | lose i =>
    exact h.shrink ⟨rfl, rfl, rfl, rfl⟩ ⟨rfl, rfl, rfl⟩ (fun _ => ⟨rfl, rfl⟩)
      fun _ => mem_unread_lose

omit [DecidableEq τ] in
/-- If each single step that returned advanced the CPU by one, N of them advanced it by N. -/
theorem exactSteps_of_each
    (h : ∀ r ∈ s.returned, r.kind.isSingle = true → s.advanced r.call = 1) : ExactSteps s := by
  refine ⟨h, ?_⟩
  have hone : (s.returned.filter fun r => r.kind.isSingle).map (fun r => s.advanced r.call) =
      (s.returned.filter fun r => r.kind.isSingle).map fun _ => 1 := by
    refine List.map_congr_left fun r hr => ?_
    obtain ⟨hmem, hsingle⟩ := List.mem_filter.mp hr
    exact h r hmem hsingle
  rw [hone, List.map_const', List.sum_replicate_nat, Nat.mul_one]

/-- In a run that starts each single step with nothing left over, and believes a poll only
once the command was consumed, every single step that returns advanced the CPU by one. -/
theorem exactSteps_of_reaches {cpu : σ} {stepping : Bool}
    (h : (machine d observed).Reaches (StepsCleanly d) (init τ cpu stepping) s) :
    ExactSteps s := by
  have hinit : ExactInv d (init τ cpu stepping) := by
    constructor <;> simp [init, PhaseInv]
  have hrun : ExactInv d s :=
    h.invariant (P := ExactInv d) hinit fun t e u ht hclean hstep => exactInv_step ht hclean hstep
  exact exactSteps_of_each hrun.each

end Exact

/-- Two steps in a row of a CPU that steps already, each confirmed by its own broadcast. -/
def steppingTwice : List (Event ℕ) := freshRun ++ freshRun

/-- The two calls advance the CPU by two. -/
theorem exactSteps_steppingTwice :
    ∃ s, (machine countingCpu true).run (init ℕ 0 true) steppingTwice = some s ∧
      s.returned.length = 2 ∧ ExactSteps s := by
  refine ⟨_, rfl, rfl, ?_⟩
  have hrun : (machine countingCpu true).Reaches (StepsCleanly countingCpu)
      (init ℕ 0 true) _ := Machine.reaches_of_runWith steppingTwice rfl
  exact exactSteps_of_reaches hrun

/-- `step_into` on a running CPU. The broadcast of the pause arrives after the command was
sent, counts as a step without effect, and the command is sent again; the emulator
consumes both before the client sees the broadcast of the first. -/
def pausedStepRun : List (Event ℕ) :=
  [.callStart (.step .stepInto), .answerStatus, .readStatus, .answerStatus, .readStatus,
   .consume 0, .answerStatus, .readStatus, .answerStatus, .readStatus,
   .deliver 0, .takeBroadcast, .consume 0, .consume 0, .deliver 0, .takeBroadcast]

/-- That call returns once and advances the CPU by two. -/
theorem double_step :
    ∃ s, (machine countingCpu true).Reachable (init ℕ 0 false) s ∧ ¬ ExactSteps s := by
  refine ⟨_, Machine.reachable_of_run pausedStepRun rfl, fun hexact => ?_⟩
  have hone := hexact.each _ List.mem_cons_self rfl
  exact absurd hone (by decide)

end Stepping
