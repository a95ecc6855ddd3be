import PpssppDfx.Breakpoint.Wait

/-!
# Whether a wait swallows a hit

A stop whose condition holds, or cannot be evaluated, ends the wait with a hit. It is
swallowed if the call goes on after it or ends without it. The storm breaker does that: it
counts a stop, and may disarm the address, before the stop has been evaluated.

## Main results

* `neverSwallows_of_reaches` — no hit is swallowed in runs where the storm breaker trips on
  a stop that does not count, and nothing that counts is left behind
* `tenth_hit_swallowed` — a run that disarms the address of a true hit
-/

set_option autoImplicit false

namespace Breakpoint

open Semantics Function

section Storm

variable {sessionId : String} {timeout : ℤ} {budget : ℕ} {s t : Wait}

/-- The result says what the broadcast says. -/
def Reports (r : WaitResult) (m : Stop) : Prop :=
  r.pc = m.pc ∧ r.reason = m.reason ∧ r.relatedAddress = m.relatedAddress ∧ r.ticks = m.ticks

/-- What holds of a call that has returned. The CPU may have been paused before; else a hit
is the first stop that counts, without a hit there was none, and a storm was counted from
stops whose condition did not hold. -/
structure NeverSwallows (s : Wait) : Prop where
  hit : ∀ r, s.phase = .returned r → r.hit = true → r.alreadyPaused = false →
    ∃ x : Met, x.Real ∧ Reports r x.stop ∧
      (∃ later, s.delivered = s.passed.map (·.stop) ++ x.stop :: later) ∧
      ∀ y ∈ s.passed, ¬ y.Real
  miss : ∀ r, s.phase = .returned r → r.hit = false →
    s.delivered = s.passed.map (·.stop) ∧ ∀ y ∈ s.passed, ¬ y.Real
  storm : ∀ r, s.phase = .returned r → r.stormBreak = true →
    ∀ address, ∀ counted ∈ s.stamps address, ¬ counted.met.Real

/-- The storm breaker trips on a stop that does not count; when the call ends without a hit,
no stop that counts is left in the subscription; and the subscription loses none, unless the
call is about to return an earlier one. -/
def Harmless (sessionId : String) (s : Wait) (e : WaitLabel) : Prop :=
  match e with
  | .offer _ => s.queue.length < subscriptionMax ∨
      (∀ m ∈ s.queue.take 1, ¬ (meet s.filters sessionId m).Real) ∨ ∃ x ∈ s.current, x.Real
  | .check => s.deadline ≤ s.now → ∀ m ∈ s.queue, ¬ (meet s.filters sessionId m).Real
  | .take => ∀ m ∈ s.queue.take 1, ∀ found ∈ filterFor s.filters sessionId m,
      isStorm (s.stamps found.1 ++ [⟨s.now, m, some found.2.condition⟩]) = true →
        ¬ (meet s.filters sessionId m).Real
  | .disarm => ∀ m ∈ s.queue, ¬ (meet s.filters sessionId m).Real
  | _ => True

instance (sessionId : String) (s : Wait) (e : WaitLabel) : Decidable (Harmless sessionId s e) := by
  unfold Harmless
  split <;> infer_instance

/-- What holds while the call is under way. -/
structure Live (s : Wait) : Prop where
  order : s.delivered = (s.passed ++ s.current ++ s.lost).map (·.stop) ++ s.queue
  passed : ∀ y ∈ s.passed, ¬ y.Real
  lost : (∀ y ∈ s.lost, ¬ y.Real) ∨ ∃ x ∈ s.current, x.Real
  counted : ∀ address, ∀ counted ∈ s.stamps address, ¬ counted.met.Real ∨ counted.met ∈ s.current
  breaking : ∀ m address entry, s.phase = .breaking m address entry → ∀ x ∈ s.current, ¬ x.Real

structure WaitInv (s : Wait) : Prop where
  live : (∀ r, s.phase ≠ .returned r) → Live s
  done : NeverSwallows s

/-- A call under way has nothing to answer for yet. -/
theorem WaitInv.of_live (hphase : ∀ r, s.phase ≠ .returned r) (h : Live s) : WaitInv s where
  live _ := h
  done := ⟨fun r hr => absurd hr (hphase r), fun r hr => absurd hr (hphase r),
    fun r hr => absurd hr (hphase r)⟩

/-- A call that has returned is over. -/
theorem WaitInv.of_done {r : WaitResult} (hphase : s.phase = .returned r) (h : NeverSwallows s) :
    WaitInv s where
  live hlive := absurd hphase (hlive r)
  done := h

theorem not_real_of_evaluates {m : Stop} {c : String} (h : m.evaluates c = some false) :
    ¬ Met.Real ⟨m, some c⟩ := fun hreal => hreal c rfl h

/-- A call that returns the first stop that counts. -/
theorem NeverSwallows.of_hit {r : WaitResult} {x : Met} {later : List Stop}
    (hphase : s.phase = .returned r) (hhit : r.hit = true) (hstorm : r.stormBreak = false)
    (hreal : x.Real) (hreports : Reports r x.stop)
    (horder : s.delivered = s.passed.map (·.stop) ++ x.stop :: later)
    (hpassed : ∀ y ∈ s.passed, ¬ y.Real) : NeverSwallows s where
  hit r' hr _ _ := by
    obtain rfl : r = r' := WaitPhase.returned.inj (hphase.symm.trans hr)
    exact ⟨x, hreal, hreports, ⟨later, horder⟩, hpassed⟩
  miss r' hr hmiss := by
    obtain rfl : r = r' := WaitPhase.returned.inj (hphase.symm.trans hr)
    rw [hhit] at hmiss
    exact Bool.noConfusion hmiss
  storm r' hr hbroke := by
    obtain rfl : r = r' := WaitPhase.returned.inj (hphase.symm.trans hr)
    rw [hstorm] at hbroke
    exact Bool.noConfusion hbroke

/-- Steps that change neither the queue nor the phase. -/
theorem Live.of_eq (h : Live s) (hdelivered : t.delivered = s.delivered)
    (hqueue : t.queue = s.queue) (hpassed : t.passed = s.passed) (hlost : t.lost = s.lost)
    (hstamps : t.stamps = s.stamps) (hcurrent : t.current = s.current)
    (hbreaking : ∀ m address entry, t.phase = .breaking m address entry →
      s.phase = .breaking m address entry) : Live t where
  order := by
    rw [hdelivered, hqueue, hpassed, hlost, hcurrent]
    exact h.order
  passed := hpassed ▸ h.passed
  lost := by
    rw [hlost, hcurrent]
    exact h.lost
  counted := by
    rw [hstamps, hcurrent]
    exact h.counted
  breaking m address entry hphase := by
    rw [hcurrent]
    exact h.breaking m address entry (hbreaking m address entry hphase)

/-- A broadcast reaches the subscription of a call under way. -/
theorem Live.offer {m : Stop} (h : Live s) (hok : Harmless sessionId s (.offer m)) :
    Live (s.offer sessionId m) := by
  have hcurrent : (s.offer sessionId m).current = s.current := rfl
  by_cases hfull : s.queue.length < subscriptionMax
  · have hlost : (s.offer sessionId m).lost = s.lost := if_pos hfull
    have hqueue : (s.offer sessionId m).queue = s.queue ++ [m] := if_pos hfull
    refine ⟨?_, h.passed, ?_, h.counted, h.breaking⟩
    · rw [hcurrent, hlost, hqueue, ← List.append_assoc]
      exact congrArg (· ++ [m]) h.order
    · rw [hcurrent, hlost]
      exact h.lost
  · obtain ⟨oldest, queue, hqueue⟩ : ∃ oldest queue, s.queue = oldest :: queue := by
      cases hqueue : s.queue with
      | nil => exact absurd (by rw [hqueue]; decide) hfull
      | cons oldest queue => exact ⟨oldest, queue, rfl⟩
    have hlost : (s.offer sessionId m).lost = s.lost ++ [meet s.filters sessionId oldest] := by
      rw [Wait.offer, if_neg hfull, hqueue]
      rfl
    have hrest : (s.offer sessionId m).queue = queue ++ [m] := by
      rw [Wait.offer, pushDropOldest, if_neg hfull, hqueue]
      rfl
    refine ⟨?_, h.passed, ?_, h.counted, h.breaking⟩
    · have horder := h.order
      rw [hqueue] at horder
      rw [hcurrent, hlost, hrest]
      show s.delivered ++ [m] = (s.passed ++ s.current ++
        (s.lost ++ [meet s.filters sessionId oldest])).map (·.stop) ++ (queue ++ [m])
      rw [horder]
      simp [meet]
    · rw [hcurrent, hlost]
      rcases hok with hroom | hnone | hreal
      · exact absurd hroom hfull
      · rcases h.lost with hlostNone | hreal
        · refine Or.inl fun y hy => ?_
          rcases List.mem_append.mp hy with hy | hy
          · exact hlostNone y hy
          · obtain rfl := List.mem_singleton.mp hy
            exact hnone oldest (by rw [hqueue]; exact List.mem_cons_self)
        · exact Or.inr hreal
      · exact Or.inr hreal

/-- Without a hit that counts among them, the stops so far are passed over. -/
theorem Live.order_passOver (h : Live s) :
    s.delivered = s.passOver.passed.map (·.stop) ++ s.queue := h.order

theorem Live.not_real_of_passOver (h : Live s) (hcurrent : ∀ x ∈ s.current, ¬ x.Real) :
    ∀ y ∈ s.passOver.passed, ¬ y.Real := by
  intro y hy
  have hlost : ∀ y ∈ s.lost, ¬ y.Real := by
    rcases h.lost with hlost | ⟨x, hx, hreal⟩
    · exact hlost
    · exact absurd hreal (hcurrent x hx)
  rcases List.mem_append.mp hy with hy | hy
  · rcases List.mem_append.mp hy with hy | hy
    · exact h.passed y hy
    · exact hcurrent y hy
  · exact hlost y hy

/-- Nothing that was counted counts once the current stop does not. -/
theorem Live.not_real_of_counted (h : Live s) (hcurrent : ∀ x ∈ s.current, ¬ x.Real)
    (address : ℤ) : ∀ counted ∈ s.stamps address, ¬ counted.met.Real := by
  intro counted hcounted
  rcases h.counted address counted hcounted with hreal | hmem
  · exact hreal
  · exact hcurrent _ hmem

/-- A broadcast is taken. -/
theorem Live.take (h : Live s) (hphase : s.phase = .taking) {m : Stop} {queue : List Stop}
    (hqueue : s.queue = m :: queue) (hok : Harmless sessionId s .take) :
    WaitInv (s.passOver.take sessionId m queue) := by
  have hcurrent : s.current = [] := by rw [Wait.current, hphase]
  have hnone : ∀ x ∈ s.current, ¬ x.Real := by
    rw [hcurrent]
    exact fun x hx => absurd hx List.not_mem_nil
  have hpassed := h.not_real_of_passOver hnone
  have horder : s.delivered = s.passOver.passed.map (·.stop) ++ m :: queue :=
    hqueue ▸ h.order_passOver
  cases hfound : filterFor s.filters sessionId m with
  | none =>
    -- A stop without a condition is a hit.
    have htake : s.passOver.take sessionId m queue = { s.passOver with
        queue := queue, phase := .returned { WaitResult.at m with hit := true } } := by
      rw [Wait.take]
      simp only [Wait.passOver, hfound]
    have hreal : Met.Real ⟨m, none⟩ := fun c hc => nomatch hc
    rw [htake]
    exact .of_done rfl (.of_hit rfl rfl rfl hreal ⟨rfl, rfl, rfl, rfl⟩ horder hpassed)
  | some found =>
    obtain ⟨address, entry⟩ := found
    have hmeet : meet s.filters sessionId m = ⟨m, some entry.condition⟩ := by
      rw [meet, hfound]
      rfl
    have htrips : isStorm (s.stamps address ++ [⟨s.now, m, some entry.condition⟩]) = true →
        ¬ Met.Real ⟨m, some entry.condition⟩ := fun htrips => by
      rw [← hmeet]
      exact hok m (by rw [hqueue]; exact List.mem_cons_self) (address, entry) hfound htrips
    have hcounted : ∀ a, ∀ counted ∈ update s.stamps address
        (s.stamps address ++ [⟨s.now, m, some entry.condition⟩]) a,
        ¬ counted.met.Real ∨ counted.met ∈ [Met.mk m (some entry.condition)] := by
      intro a counted hcounted
      by_cases ha : a = address
      · subst ha
        rw [update_self] at hcounted
        rcases List.mem_append.mp hcounted with hold | hnew
        · exact Or.inl (h.not_real_of_counted hnone a counted hold)
        · obtain rfl := List.mem_singleton.mp hnew
          exact Or.inr List.mem_cons_self
      · rw [update_of_ne ha] at hcounted
        exact Or.inl (h.not_real_of_counted hnone a counted hcounted)
    have horder' : s.delivered = (s.passOver.passed ++ [Met.mk m (some entry.condition)] ++
        []).map (fun x : Met => x.stop) ++ queue := by
      rw [horder]
      simp
    have hlost : ∀ y ∈ ([] : List Met), ¬ y.Real := fun y hy => absurd hy List.not_mem_nil
    unfold Wait.take
    simp only [Wait.passOver, hfound]
    by_cases hstorm : isStorm (s.stamps address ++ [⟨s.now, m, some entry.condition⟩]) = true
    · rw [Wait.afterStamp, if_pos hstorm]
      refine .of_live (fun r hr => nomatch hr) ⟨horder', hpassed, Or.inl hlost, hcounted, ?_⟩
      rintro m' address' entry' - x hx
      obtain rfl := List.mem_singleton.mp hx
      exact htrips hstorm
    · rw [Wait.afterStamp, if_neg hstorm]
      exact .of_live (fun r hr => nomatch hr)
        ⟨horder', hpassed, Or.inl hlost, hcounted, fun _ _ _ hr => nomatch hr⟩

/-- The condition of the current stop has been evaluated. -/
theorem Live.judge (h : Live s) {m : Stop} {address : ℤ} {entry : Filter}
    (hphase : s.phase = .evaluating m address entry) :
    WaitInv (s.judge sessionId m address entry) := by
  have hcurrent : s.current = [⟨m, some entry.condition⟩] := by rw [Wait.current, hphase]
  unfold Wait.judge
  split
  · rename_i hfalse
    have hnone : ∀ x ∈ s.current, ¬ x.Real := by
      intro x hx
      rw [hcurrent] at hx
      obtain rfl := List.mem_singleton.mp hx
      exact not_real_of_evaluates hfalse
    refine .of_live (fun r hr => nomatch hr) ⟨?_, h.not_real_of_passOver hnone, ?_, ?_, ?_⟩
    · show s.delivered = (s.passOver.passed ++ [] ++ []).map (fun x : Met => x.stop) ++ s.queue
      rw [List.append_nil, List.append_nil]
      exact h.order_passOver
    · exact Or.inl fun y hy => absurd hy List.not_mem_nil
    · exact fun a counted hcounted => Or.inl (h.not_real_of_counted hnone a counted hcounted)
    · exact fun _ _ _ hr => nomatch hr
  · rename_i hholds
    have horder : s.delivered = s.passed.map (·.stop) ++ m :: (s.lost.map (·.stop) ++ s.queue) := by
      have horder := h.order
      rw [hcurrent] at horder
      simpa using horder
    have hreal : Met.Real ⟨m, some entry.condition⟩ := fun c hc => by
      obtain rfl := Option.some.inj hc
      exact hholds
    exact .of_done rfl (.of_hit rfl rfl rfl hreal ⟨rfl, rfl, rfl, rfl⟩ horder h.passed)

/-- The call ends without a hit, and leaves no stop behind that counts. -/
theorem Live.close (h : Live s) (hcurrent : ∀ x ∈ s.current, ¬ x.Real)
    (hqueue : ∀ m ∈ s.queue, ¬ (meet s.filters sessionId m).Real) {r : WaitResult}
    (hhit : r.hit = false) : NeverSwallows (s.close sessionId r) where
  hit r' hr htrue := by
    obtain rfl := WaitPhase.returned.inj hr
    rw [hhit] at htrue
    exact Bool.noConfusion htrue
  miss r' hr _ := by
    constructor
    · show s.delivered = (s.passOver.passed ++ s.queue.map (meet s.filters sessionId)).map (·.stop)
      have hstop : (s.queue.map (meet s.filters sessionId)).map (·.stop) = s.queue := by
        rw [List.map_map]
        exact List.map_id _
      rw [List.map_append, hstop]
      exact h.order_passOver
    · intro y hy
      rcases List.mem_append.mp hy with hy | hy
      · exact h.not_real_of_passOver hcurrent y hy
      · obtain ⟨m, hm, rfl⟩ := List.mem_map.mp hy
        exact hqueue m hm
  storm r' hr _ := h.not_real_of_counted hcurrent

/-- Steps of other calls and of the clock. -/
theorem WaitInv.of_eq (h : WaitInv s) (hdelivered : t.delivered = s.delivered)
    (hqueue : t.queue = s.queue) (hpassed : t.passed = s.passed) (hlost : t.lost = s.lost)
    (hstamps : t.stamps = s.stamps) (hphase : t.phase = s.phase) : WaitInv t where
  live hlive := by
    have hcurrent : t.current = s.current := by rw [Wait.current, Wait.current, hphase]
    exact (h.live (hphase ▸ hlive)).of_eq hdelivered hqueue hpassed hlost hstamps hcurrent
      fun m address entry hr => hphase ▸ hr
  done := by
    obtain ⟨hhit, hmiss, hstorm⟩ := h.done
    constructor
    · rw [hphase, hdelivered, hpassed]
      exact hhit
    · rw [hphase, hdelivered, hpassed]
      exact hmiss
    · rw [hphase, hstamps]
      exact hstorm

/-- A call under way awaits something else, with no stop taken. -/
theorem Live.setPhase (h : Live s) (hcurrent : s.current = []) {phase : WaitPhase}
    (hphase : ({ s with phase := phase } : Wait).current = [])
    (hbreaking : ∀ m address entry, phase ≠ .breaking m address entry) :
    Live { s with phase := phase } :=
  h.of_eq rfl rfl rfl rfl rfl (hphase.trans hcurrent.symm)
    fun m address entry hr => absurd hr (hbreaking m address entry)

theorem WaitInv.step {e : WaitLabel} (h : WaitInv s) (hok : Harmless sessionId s e)
    (hstep : (waiting sessionId timeout).step s e = some t) : WaitInv t := by
  -- a call under way stays `Live`; one that returns has swallowed no stop that counts
  cases e with
  | tick elapsed =>
    obtain rfl := Option.some.inj hstep
    exact h.of_eq rfl rfl rfl rfl rfl rfl
  | rearm key entry =>
    obtain rfl := Option.some.inj hstep
    exact h.of_eq rfl rfl rfl rfl rfl rfl
  | offer m =>
    simp only [waiting, waitStep] at hstep
    split at hstep
    · exact nomatch hstep
    · rename_i hphase
      obtain rfl := Option.some.inj hstep
      exact .of_live hphase ((h.live hphase).offer hok)
  | probe stepping pc =>
    simp only [waiting, waitStep] at hstep
    split at hstep
    · rename_i hphase
      split at hstep
      · obtain rfl := Option.some.inj hstep
        refine .of_done rfl ⟨fun r hr _ hpaused => ?_, fun r hr hmiss => ?_, fun r hr hstorm => ?_⟩
        all_goals obtain rfl := WaitPhase.returned.inj hr
        · exact nomatch hpaused
        · exact nomatch hmiss
        · exact nomatch hstorm
      · obtain rfl := Option.some.inj hstep
        have hlive := h.live (by simp [hphase])
        have hcurrent : s.current = [] := by rw [Wait.current, hphase]
        exact .of_live (fun r hr => nomatch hr) (hlive.of_eq rfl rfl rfl rfl rfl hcurrent.symm
          fun _ _ _ hr => nomatch hr)
    · exact nomatch hstep
  | check =>
    simp only [waiting, waitStep] at hstep
    split at hstep
    · rename_i hphase
      have hlive := h.live (by simp [hphase])
      have hcurrent : s.current = [] := by rw [Wait.current, hphase]
      split at hstep
      -- the deadline has passed, and what is still queued does not count
      · rename_i hover
        obtain rfl := Option.some.inj hstep
        refine .of_done rfl (hlive.close ?_ (hok hover) rfl)
        rw [hcurrent]
        exact fun x hx => absurd hx List.not_mem_nil
      · obtain rfl := Option.some.inj hstep
        exact .of_live (fun r hr => nomatch hr) (hlive.setPhase hcurrent rfl fun _ _ _ hr =>
          nomatch hr)
    · exact nomatch hstep
  | take =>
    simp only [waiting, waitStep] at hstep
    split at hstep
    · rename_i m queue hphase hqueue
      obtain rfl := Option.some.inj hstep
      exact (h.live (by simp [hphase])).take hphase hqueue hok
    · exact nomatch hstep
  | takeTimesOut =>
    simp only [waiting, waitStep] at hstep
    split at hstep
    · rename_i hphase hqueue
      split at hstep
      · obtain rfl := Option.some.inj hstep
        have hcurrent : s.current = [] := by rw [Wait.current, hphase]
        exact .of_live (fun r hr => nomatch hr) ((h.live (by simp [hphase])).setPhase hcurrent rfl
          fun _ _ _ hr => nomatch hr)
      · exact nomatch hstep
    · exact nomatch hstep
  | judge =>
    simp only [waiting, waitStep] at hstep
    split at hstep
    · rename_i m address entry hphase
      obtain rfl := Option.some.inj hstep
      exact (h.live (by simp [hphase])).judge hphase
    · exact nomatch hstep
  | resumed =>
    simp only [waiting, waitStep] at hstep
    split at hstep
    · rename_i hphase
      obtain rfl := Option.some.inj hstep
      have hcurrent : s.current = [] := by rw [Wait.current, hphase]
      exact .of_live (fun r hr => nomatch hr) ((h.live (by simp [hphase])).setPhase hcurrent rfl
        fun _ _ _ hr => nomatch hr)
    · exact nomatch hstep
  | disarm =>
    simp only [waiting, waitStep] at hstep
    split at hstep
    · rename_i m address entry hphase
      obtain rfl := Option.some.inj hstep
      have hlive := h.live (by simp [hphase])
      have hdone := hlive.close (hlive.breaking m address entry hphase) hok
        (r := s.stormResult m address entry) rfl
      exact (WaitInv.of_done rfl hdone).of_eq rfl rfl rfl rfl rfl rfl
    · exact nomatch hstep

theorem waitInv_begin (now : ℕ) (filters : Filters) : WaitInv (.begin now filters) :=
  .of_live (fun _ hr => nomatch hr)
    ⟨rfl, fun _ hy => absurd hy List.not_mem_nil, Or.inl fun _ hy => absurd hy List.not_mem_nil,
      fun _ _ hc => absurd hc List.not_mem_nil, fun _ _ _ hr => nomatch hr⟩

/-- In every run in which the storm breaker trips only on stops that do not count, and no
stop that counts is left in the subscription or lost by it, the call swallows none. -/
theorem neverSwallows_of_reaches {now : ℕ} {filters : Filters}
    (h : (waiting sessionId timeout).Reaches (Harmless sessionId) (.begin now filters) s) :
    NeverSwallows s :=
  (h.invariant (waitInv_begin now filters) fun _ _ _ hinv hok hstep => hinv.step hok hstep).done

end Storm

/-- A condition on one address. -/
def oneFilter : Filters := Filters.register (fun _ => none) "psp-1" 0x08804000 "s1 == 5"

/-- The CPU stops there, and the condition holds or not. -/
def stopAt (holds : Bool) : Stop :=
  ⟨some 0x08804000, none, some "breakpoint", some 1, fun _ => some holds⟩

/-- A stop whose condition does not hold, a microsecond after the last one. -/
def falseHit : List WaitLabel :=
  [.check, .offer (stopAt false), .tick 1000, .take, .judge, .resumed]

def twoHits : List WaitLabel :=
  .probe false none :: falseHit ++ [.check, .offer (stopAt true), .take, .judge]

/-- The call returned a hit, after so many stops that did not count. -/
def Wait.hitAfter (filtered : ℕ) (s : Wait) : Bool :=
  match s.phase with
  | .returned r => r.hit && r.conditionFiltered = filtered
  | _ => false

/-- The second stop is the first that counts, and the call returns it. -/
theorem neverSwallows_twoHits :
    ∃ s, (waiting "psp-1" 30000000000).Reaches (Harmless "psp-1") (.begin 0 oneFilter) s ∧
      s.hitAfter 1 = true ∧ NeverSwallows s := by
  have hends : ((waiting "psp-1" 30000000000).runWith (Harmless "psp-1") (.begin 0 oneFilter)
      twoHits).any (Wait.hitAfter 1) = true := by decide +kernel
  obtain ⟨s, hrun, hhit⟩ := Machine.exists_reaches_of_runWith twoHits hends
  exact ⟨s, hrun, hhit, neverSwallows_of_reaches hrun⟩

/-- Nine stops whose condition does not hold, and a tenth whose condition does. -/
def tenHits : List WaitLabel :=
  .probe false none :: (List.replicate 9 falseHit).flatten ++
    [.check, .offer (stopAt true), .take, .disarm]

/-- The call ended without a hit, after a stop that counts. -/
def Wait.swallowed (s : Wait) : Bool :=
  match s.phase with
  | .returned r => !r.hit && s.passed.any fun y => y.Real
  | _ => false

theorem not_neverSwallows_of_swallowed {s : Wait} (h : s.swallowed = true) : ¬ NeverSwallows s := by
  intro hnever
  unfold Wait.swallowed at h
  split at h
  · rename_i r hphase
    obtain ⟨hhit, hany⟩ := Bool.and_eq_true_iff.mp h
    obtain ⟨y, hy, hreal⟩ := List.any_eq_true.mp hany
    exact (hnever.miss r hphase (by simpa using hhit)).2 y hy (of_decide_eq_true hreal)
  · exact Bool.noConfusion h

/-- The tenth stop completes a storm, and the call ends without a hit. -/
theorem tenth_hit_swallowed :
    ∃ s, (waiting "psp-1" 30000000000).Reachable (.begin 0 oneFilter) s ∧ ¬ NeverSwallows s := by
  have hends : ((waiting "psp-1" 30000000000).run (.begin 0 oneFilter) tenHits).any
      Wait.swallowed = true := by decide +kernel
  obtain ⟨s, hrun, hswallowed⟩ := Machine.exists_reachable_of_run tenHits hends
  exact ⟨s, hrun, not_neverSwallows_of_swallowed hswallowed⟩

end Breakpoint
