import PpssppDfx.Middleware.Admission

/-!
# Pruning the buckets

The limiter drops the buckets that have been idle for an hour, and a bucket that is dropped
is full when it is made again. It would have been full anyway: a minute refills a bucket. So
a limiter that keeps all its buckets decides in the same way, and so does one that drops some
of them at other times, as long as they have been idle for a minute.

## Main definitions

* `RateLimit.outcomes` — what a list of attempts raises at a limiter

## Main results

* `lockstep_dropsIdle` — two limiters that drop idle buckets decide alike
* `outcomes_eq_unpruned` — pruning makes no difference
-/

set_option autoImplicit false

namespace RateLimit

open Python Semantics TokenBucketLimiter

/-- The table is left alone. -/
def keepAll : Pruning := fun l _ _ => l

/-- A limiter, answering with what its attempts raise. -/
def limiting (acquire : TokenBucketLimiter → ℚ → BucketKey → Option String × TokenBucketLimiter) :
    Responder TokenBucketLimiter Attempt (Option String) ℚ where
  respond l a := acquire l a.now a.key
  time := Attempt.now

/-- What the attempts raise at a limiter that was constructed at `start`: `none` for those that
are accepted. -/
def outcomes (acquire : TokenBucketLimiter → ℚ → BucketKey → Option String × TokenBucketLimiter)
    (rate start : ℚ) (attempts : List Attempt) : List (Option String) :=
  (limiting acquire).answers (fun _ => true) (init rate start) attempts

theorem dropsIdle_keepAll : DropsIdle keepAll where
  rate_eq _ _ _ := rfl
  lookup _ _ _ _ := Or.inl rfl

/-- The limiters have the same rate, and a request finds the same tokens in both. -/
structure SameTokens (t : ℚ) (l l' : TokenBucketLimiter) : Prop where
  rate_eq : l.rate = l'.rate
  sound : l.Sound t
  sound' : l'.Sound t
  same : ∀ key now, t ≤ now → l.available key now = l'.available key now

/-- Limiters that drop idle buckets decide alike, each in its own way of pruning. -/
theorem lockstep_dropsIdle {pruning pruning' : Pruning} (h : DropsIdle pruning)
    (h' : DropsIdle pruning') :
    Lockstep (limiting (acquireWith pruning)) (limiting (acquireWith pruning')) SameTokens where
  respond := by
    intro t l l' a hsame hle
    change (l.acquireWith pruning a.now a.key).1 = (l'.acquireWith pruning' a.now a.key).1 ∧
      SameTokens a.now (l.acquireWith pruning a.now a.key).2
        (l'.acquireWith pruning' a.now a.key).2
    change t ≤ a.now at hle
    have hfound := hsame.same a.key a.now hle
    have hnext : ∀ key now, a.now ≤ now → l.available key now = l'.available key now :=
      fun key now hnow => hsame.same key now (hle.trans hnow)
    by_cases hrate : l.rate ≤ 0
    -- neither of them limits anything
    · have hrate' : l'.rate ≤ 0 := hsame.rate_eq ▸ hrate
      rw [acquireWith, acquireWith, if_pos hrate, if_pos hrate']
      exact ⟨rfl, hsame.rate_eq, hsame.sound.of_le hle, hsame.sound'.of_le hle, hnext⟩
    have hpositive := not_le.mp hrate
    have hpositive' : 0 < l'.rate := hsame.rate_eq ▸ hpositive
    refine ⟨?_, ?_, sound_acquireWith h hsame.sound hle, sound_acquireWith h' hsame.sound' hle,
      fun key now hnow => ?_⟩
    · rw [acquireWith_outcome h hsame.sound hpositive,
        acquireWith_outcome h' hsame.sound' hpositive', hfound, hsame.rate_eq]
    · rw [acquireWith_rate h, acquireWith_rate h', hsame.rate_eq]
    · rw [available_acquireWith h hsame.sound hpositive hnow,
        available_acquireWith h' hsame.sound' hpositive' hnow, hfound, hnext key now hnow,
        hsame.rate_eq]

/-- The limiter accepts and refuses the attempts that one without pruning does, with the same
messages. -/
theorem outcomes_eq_unpruned (rate start : ℚ) (attempts : List Attempt)
    (htimes : attempts.Pairwise fun x y => x.now ≤ y.now) :
    outcomes acquire rate start attempts = outcomes (acquireWith keepAll) rate start attempts := by
  have hacquire : acquire = acquireWith prune := rfl
  rw [hacquire]
  cases attempts with
  | nil => rfl
  -- no bucket is there yet at the first attempt, whenever the limiters were constructed
  | cons a rest =>
    have hinit : SameTokens a.now (init rate start) (init rate start) :=
      ⟨rfl, sound_init, sound_init, fun _ _ _ => rfl⟩
    exact (lockstep_dropsIdle dropsIdle_prune dropsIdle_keepAll).answers_eq hinit
      (Responder.timely_of_pairwise htimes) _

/-- The third call in the burst is refused with and without pruning. -/
theorem outcomes_burst :
    outcomes acquire 2 0 burst = outcomes (acquireWith keepAll) 2 0 burst :=
  outcomes_eq_unpruned 2 0 burst (by decide)

end RateLimit
