import Mathlib.Algebra.Order.Archimedean.Basic
import Mathlib.Tactic.Abel

/-!
# Polling until a deadline

A loop asks, looks at the clock, sleeps and asks again. What it may spend on one question depends
on the time that is left, and is never less than some floor, so that the last question is asked,
too. The clock is that of the loop: it starts at zero.

How long a question and a sleep take, and what is answered, is up to the environment.

## Main definitions

* `Semantics.pollFrom` — the loop, with fuel

## Main results

* `Semantics.exists_poll` — a loop that sleeps ends
* `Semantics.poll_spec` — why it ends, and by when
-/

set_option autoImplicit false

namespace Semantics

/-- What comes of one question. The loop keeps something of an answer it is not content with. -/
inductive Reply (σ α ε : Type*) where
  | done (a : α)
  | again (s : σ)
  | fail (e : ε)

/-- How a loop ends. -/
inductive PollEnd (σ α ε : Type*) where
  | done (a : α)
  | expired (s : σ)
  | fail (e : ε)

/-- The deadline of a loop, and what it may spend on a question when so much time is left. -/
structure Polling (τ : Type*) where
  deadline : τ
  interval : τ
  budget : τ → τ

/-- The environment: how long a question takes, by its number, what was kept, the time and the
budget, and what it comes to; and how long the sleep after it takes. -/
structure PollWorld (τ σ α ε : Type*) where
  ask : ℕ → σ → τ → τ → τ × Reply σ α ε
  sleep : ℕ → τ

variable {τ σ α ε : Type*} [AddCommGroup τ] [LinearOrder τ]

/-- The loop from a question on: how many were asked, the time, and how it ends. -/
def pollFrom (p : Polling τ) (w : PollWorld τ σ α ε) :
    ℕ → ℕ → σ → τ → Option (ℕ × τ × PollEnd σ α ε)
  | 0, _, _, _ => none
  | fuel + 1, i, s, now =>
    let answer := w.ask i s now (p.budget (p.deadline - now))
    let time := now + answer.1
    match answer.2 with
    | .done a => some (i + 1, time, .done a)
    | .fail e => some (i + 1, time, .fail e)
    | .again s => if p.deadline ≤ time then some (i + 1, time, .expired s)
      else pollFrom p w fuel (i + 1) s (time + w.sleep i)

/-- Questions take the time that they may, and a bit more; sleeps take at least their time. -/
structure PollWorld.Punctual (w : PollWorld τ σ α ε) (p : Polling τ) (slack lag : τ) : Prop where
  ask_nonneg : ∀ i s now budget, 0 ≤ (w.ask i s now budget).1
  ask_le : ∀ i s now budget, 0 ≤ budget → (w.ask i s now budget).1 ≤ budget + slack
  interval_le : ∀ i, p.interval ≤ w.sleep i
  sleep_le : ∀ i, w.sleep i ≤ p.interval + lag

variable [IsOrderedAddMonoid τ] {p : Polling τ} {w : PollWorld τ σ α ε} {slack lag floor : τ}

/-- With so many sleeps to the deadline, one more question is the last. -/
theorem pollFrom_isSome (hw : w.Punctual p slack lag) (n i : ℕ) (s : σ) (now : τ)
    (h : p.deadline ≤ now + n • p.interval) : (pollFrom p w (n + 1) i s now).isSome := by
  induction n generalizing i s now with
  | zero =>
    have htime : p.deadline ≤ now + (w.ask i s now (p.budget (p.deadline - now))).1 := by
      rw [zero_nsmul, add_zero] at h
      exact h.trans (le_add_of_nonneg_right (hw.ask_nonneg ..))
    rw [pollFrom]
    split
    · rfl
    · rfl
    · rw [if_pos htime]
      rfl
  | succ n ih =>
    rw [pollFrom]
    split
    · rfl
    · rfl
    · split
      · rfl
      · apply ih
        refine h.trans ?_
        rw [succ_nsmul, add_assoc _ (w.sleep i), add_assoc now]
        refine add_le_add le_rfl ?_
        rw [add_comm (n • p.interval)]
        exact (add_le_add (hw.interval_le i) le_rfl).trans
          (le_add_of_nonneg_left (hw.ask_nonneg ..))

/-- A loop that sleeps ends. -/
theorem exists_poll [Archimedean τ] (hw : w.Punctual p slack lag) (hinterval : 0 < p.interval)
    (s : σ) : ∃ fuel, (pollFrom p w fuel 0 s 0).isSome := by
  obtain ⟨n, hn⟩ := Archimedean.arch p.deadline hinterval
  exact ⟨n + 1, pollFrom_isSome hw n 0 s 0 (by rwa [zero_add])⟩

/-- Why a loop ends: its last question was answered, or failed, or the deadline was over. -/
def PollEnd.Explained (p : Polling τ) (w : PollWorld τ σ α ε) (n : ℕ) (time : τ)
    (last : PollEnd σ α ε) : Prop :=
  ∃ i s start, n = i + 1 ∧
    let answer := w.ask i s start (p.budget (p.deadline - start))
    time = start + answer.1 ∧
      match last with
      | .done a => answer.2 = .done a
      | .fail e => answer.2 = .fail e
      | .expired s => answer.2 = .again s ∧ p.deadline ≤ time

/-- Where a question may begin: no later than one sleep after the deadline. -/
theorem pollFrom_spec (hw : w.Punctual p slack lag)
    (hbudget : ∀ left, 0 ≤ p.budget left ∧ p.budget left ≤ max floor left)
    (hlate : 0 ≤ p.interval + lag) (hfloor : 0 ≤ floor) {fuel i n : ℕ} {s : σ} {now time : τ}
    {last : PollEnd σ α ε} (hnow : now ≤ p.deadline + (p.interval + lag))
    (h : pollFrom p w fuel i s now = some (n, time, last)) :
    last.Explained p w n time ∧ time ≤ p.deadline + (p.interval + lag) + floor + slack := by
  induction fuel generalizing i s now with
  | zero => cases h
  | succ fuel ih =>
    rw [pollFrom] at h
    have htime : now + (w.ask i s now (p.budget (p.deadline - now))).1 ≤
        p.deadline + (p.interval + lag) + floor + slack := by
      have hask := (hw.ask_le i s now _ (hbudget (p.deadline - now)).1).trans
        (add_le_add (hbudget _).2 le_rfl)
      have hmax : now + max floor (p.deadline - now) ≤ p.deadline + (p.interval + lag) + floor := by
        rw [← max_add_add_left, add_sub_cancel]
        refine max_le (add_le_add hnow le_rfl) ?_
        exact (le_add_of_nonneg_right hlate).trans (le_add_of_nonneg_right hfloor)
      refine (add_le_add le_rfl hask).trans ?_
      rw [← add_assoc]
      exact add_le_add hmax le_rfl
    split at h
    · rename_i a hreply
      obtain ⟨rfl, rfl, rfl⟩ : i + 1 = n ∧ _ = time ∧ PollEnd.done a = last := by simpa using h
      exact ⟨⟨i, s, now, rfl, rfl, hreply⟩, htime⟩
    · rename_i e hreply
      obtain ⟨rfl, rfl, rfl⟩ : i + 1 = n ∧ _ = time ∧ PollEnd.fail e = last := by simpa using h
      exact ⟨⟨i, s, now, rfl, rfl, hreply⟩, htime⟩
    · rename_i s' hreply
      split at h
      · rename_i hover
        obtain ⟨rfl, rfl, rfl⟩ : i + 1 = n ∧ _ = time ∧ PollEnd.expired s' = last := by
          simpa using h
        exact ⟨⟨i, s, now, rfl, rfl, hreply, hover⟩, htime⟩
      · rename_i hover
        exact ih (add_le_add (not_le.mp hover).le (hw.sleep_le i)) h

/-- A loop with a deadline that is not over at once: it ends for a reason, and in time. -/
theorem poll_spec (hw : w.Punctual p slack lag)
    (hbudget : ∀ left, 0 ≤ p.budget left ∧ p.budget left ≤ max floor left)
    (hlate : 0 ≤ p.interval + lag) (hfloor : 0 ≤ floor) (hdeadline : 0 ≤ p.deadline) {fuel n : ℕ}
    {s : σ} {time : τ} {last : PollEnd σ α ε}
    (h : pollFrom p w fuel 0 s 0 = some (n, time, last)) :
    last.Explained p w n time ∧ time ≤ p.deadline + (p.interval + lag) + floor + slack :=
  pollFrom_spec hw hbudget hlate hfloor (add_nonneg hdeadline hlate) h

end Semantics
