import PpssppDfx.Middleware.RateLimit
import PpssppDfx.Semantics.Metered

/-!
# What the rate limiter admits

A bucket holds at most the rate in tokens, and a minute refills it once. So in a window of `T`
seconds at most `rate + rate * T / 60` attempts with one key are admitted, whatever attempts
with other keys are made and whichever buckets are pruned in between.

## Main definitions

* `RateLimit.admitted` — the attempts that are admitted, in their order

## Main results

* `metered_limiter` — the tokens of a bucket pay for the attempts with its key
* `admitted_window_le` — the bound for a window
-/

set_option autoImplicit false

namespace RateLimit

open Semantics TokenBucketLimiter

/-- A call of `acquire`, with the time that `time.monotonic` gives. -/
structure Attempt where
  now : ℚ
  key : BucketKey

/-- The limiter, answering whether an attempt is admitted. -/
def limiter : Responder TokenBucketLimiter Attempt Bool ℚ where
  respond l a :=
    let result := l.acquire a.now a.key
    (result.1.isNone, result.2)
  time := Attempt.now

/-- The attempts that a limiter constructed at `start` admits, in their order. -/
def admitted (rate start : ℚ) (attempts : List Attempt) : List Attempt :=
  limiter.granted (init rate start) attempts

/-- The attempt is one with the key in the window of `T` seconds from `opens` on. -/
def InWindow (key : BucketKey) (opens T : ℚ) (a : Attempt) : Prop :=
  a.key = key ∧ opens ≤ a.now ∧ a.now ≤ opens + T

instance (key : BucketKey) (opens T : ℚ) : DecidablePred (InWindow key opens T) := fun a =>
  inferInstanceAs (Decidable (a.key = key ∧ opens ≤ a.now ∧ a.now ≤ opens + T))

/-! ## Tokens over time -/

section Tokens

variable {l : TokenBucketLimiter} {t now now' rate : ℚ} {bucket : Bucket} {key key' : BucketKey}

/-- No bucket has fewer tokens than none. -/
theorem tokensAt_nonneg (hrate : 0 ≤ rate) (htokens : 0 ≤ bucket.1) (hle : bucket.2 ≤ now) :
    0 ≤ tokensAt rate bucket now := by
  have hrefill : 0 ≤ (now - bucket.2) * rate := mul_nonneg (sub_nonneg.mpr hle) hrate
  refine le_min hrate ?_
  linarith

/-- A bucket fills no faster than the rate, which is a number per minute. -/
theorem tokensAt_rises (hrate : 0 ≤ rate) (hle : now ≤ now') :
    tokensAt rate bucket now' ≤ tokensAt rate bucket now + (now' - now) * (rate / 60) := by
  have hrise : 0 ≤ (now' - now) * (rate / 60) :=
    mul_nonneg (sub_nonneg.mpr hle) (div_nonneg hrate (by norm_num))
  -- a full bucket stays at the rate, and any other one has filled on without a bound
  rcases min_choice rate (bucket.1 + (now - bucket.2) * rate / 60) with hfull | hpart
  · calc
      tokensAt rate bucket now' ≤ rate := tokensAt_le
      _ = tokensAt rate bucket now := hfull.symm
      _ ≤ _ := le_add_of_nonneg_right hrise
  · calc
      tokensAt rate bucket now' ≤ bucket.1 + (now' - bucket.2) * rate / 60 := min_le_right _ _
      _ = bucket.1 + (now - bucket.2) * rate / 60 + (now' - now) * (rate / 60) := by ring
      _ = tokensAt rate bucket now + (now' - now) * (rate / 60) := by rw [tokensAt, hpart]

theorem available_nonneg (hrate : 0 < l.rate) (h : l.Sound t) (hle : t ≤ now) :
    0 ≤ l.available key now := by
  cases hbucket : l.buckets.lookup key with
  | none => exact (available_of_lookup_none hbucket).symm ▸ hrate.le
  | some bucket =>
    have hsound := h key bucket hbucket
    rw [available, hbucket, Option.getD_some]
    exact tokensAt_nonneg hrate.le hsound.1 (hsound.2.trans hle)

/-- The tokens that an attempt finds rise no faster than the rate. -/
theorem available_rises (hrate : 0 < l.rate) (hle : now ≤ now') :
    l.available key now' ≤ l.available key now + (now' - now) * (l.rate / 60) := by
  cases hbucket : l.buckets.lookup key with
  | none =>
    have hrise : 0 ≤ (now' - now) * (l.rate / 60) :=
      mul_nonneg (sub_nonneg.mpr hle) (div_nonneg hrate.le (by norm_num))
    rw [available_of_lookup_none hbucket, available_of_lookup_none hbucket]
    exact le_add_of_nonneg_right hrise
  | some bucket =>
    rw [available, available, hbucket, Option.getD_some, Option.getD_some]
    exact tokensAt_rises hrate.le hle

/-- An attempt that is admitted takes a token. -/
theorem available_acquire_admitted (hrate : 0 < l.rate) (h : l.Sound t)
    (hadmitted : (l.acquire now key).1.isNone = true) :
    (l.acquire now key).2.available key now + 1 ≤ l.available key now := by
  have henough := (accepted_iff h hrate).mp hadmitted
  rw [available_accepted h hrate henough (le_refl now)]
  have hleft : tokensAt l.rate (l.available key now - 1, now) now ≤
      l.available key now - 1 + (now - now) * l.rate / 60 := min_le_right _ _
  rw [sub_self, zero_mul, zero_div, add_zero] at hleft
  linarith

/-- No attempt adds tokens to a bucket. -/
theorem available_acquire_le (hrate : 0 < l.rate) (h : l.Sound t) :
    (l.acquire now key).2.available key' now ≤ l.available key' now := by
  by_cases hkey : key' = key
  -- its own bucket: a refusal takes nothing, and an admission a token
  · subst hkey
    by_cases hfew : l.available key' now < 1
    · exact (available_refused h hrate hfew (le_refl now)).le
    · have hadmitted := (accepted_iff h hrate).mpr (not_lt.mp hfew)
      have htaken := available_acquire_admitted hrate h hadmitted
      linarith
  · exact (available_acquire_of_ne h hrate hkey (le_refl now)).le

end Tokens

/-! ## The bound -/

/-- The tokens of a bucket pay for the attempts with its key. Creating and pruning the bucket
are no exceptions: a key without a bucket counts as one with a full bucket. -/
theorem metered_limiter {rate : ℚ} (hrate : 0 < rate) (key : BucketKey) :
    Metered limiter (fun a => decide (a.key = key)) (fun t l => l.rate = rate ∧ l.Sound t)
      (fun l now => l.available key now) rate (rate / 60) where
  nonneg := by
    rintro t u l ⟨rfl, hsound⟩ hle
    exact available_nonneg hrate hsound hle
  le_capacity := by
    rintro t l ⟨rfl, -⟩ now
    exact available_le
  rises := by
    rintro t u v l ⟨rfl, -⟩ - hle
    exact available_rises hrate hle
  keeps := by
    rintro t l a ⟨rfl, hsound⟩ hle
    exact ⟨acquire_rate, hsound.acquire hle⟩
  pays := by
    rintro t l a ⟨rfl, hsound⟩ - hown hadmitted
    obtain rfl := of_decide_eq_true hown
    exact available_acquire_admitted hrate hsound hadmitted
  spares := by
    rintro t l a ⟨rfl, hsound⟩ -
    exact available_acquire_le hrate hsound

/-- At most the capacity of a bucket and `rate * T / 60` attempts with its key are admitted in
a window of `T` seconds. -/
theorem admitted_window_le (rate start : ℚ) (hrate : 0 < rate) (attempts : List Attempt)
    (htimes : attempts.Pairwise fun x y => x.now ≤ y.now) (key : BucketKey) (opens T : ℚ)
    (hT : 0 ≤ T) :
    (((admitted rate start attempts).countP fun a => decide (InWindow key opens T a) : ℕ) : ℚ) ≤
      rate + rate * T / 60 := by
  have hslope : 0 ≤ rate / 60 := div_nonneg hrate.le (by norm_num)
  cases attempts with
  | nil =>
    rw [admitted, Responder.granted, List.countP_nil, Nat.cast_zero]
    positivity
  -- the limiter is sound at the first attempt, whenever it was constructed
  | cons a rest =>
    have hcount := (metered_limiter hrate key).countP_granted_le hslope
      (⟨rfl, sound_init⟩ : (init rate start).rate = rate ∧ (init rate start).Sound a.now)
      (Responder.timely_of_pairwise htimes) (le_add_of_nonneg_right hT : opens ≤ opens + T)
    have hwindow : (fun a : Attempt => decide (InWindow key opens T a)) = fun a =>
        (decide (a.key = key) && decide (opens ≤ limiter.time a)) &&
          decide (limiter.time a ≤ opens + T) := by
      funext a
      rw [Bool.eq_iff_iff, decide_eq_true_iff, Bool.and_eq_true, Bool.and_eq_true,
        decide_eq_true_iff, decide_eq_true_iff, decide_eq_true_iff, and_assoc]
      rfl
    calc
      _ ≤ rate + (opens + T - opens) * (rate / 60) := by rw [hwindow]; exact hcount
      _ = rate + rate * T / 60 := by ring

/-- Two calls a minute: three calls at once and one after half a minute. -/
def burst : List Attempt :=
  [⟨0, ("A", "ppsspp_pause")⟩, ⟨0, ("A", "ppsspp_pause")⟩, ⟨0, ("A", "ppsspp_pause")⟩,
    ⟨30, ("A", "ppsspp_pause")⟩]

/-- The bound is reached: the third call is refused and the fourth is not. -/
theorem admitted_burst :
    (admitted 2 0 burst).map Attempt.now = [0, 0, 30] ∧
      (((admitted 2 0 burst).countP fun a =>
        decide (InWindow ("A", "ppsspp_pause") 0 30 a) : ℕ) : ℚ) ≤ 2 + 2 * 30 / 60 :=
  ⟨by decide +kernel, admitted_window_le 2 0 (by norm_num) burst (by decide) _ 0 30 (by norm_num)⟩

end RateLimit
