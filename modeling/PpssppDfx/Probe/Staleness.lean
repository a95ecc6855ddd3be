import Mathlib.Data.List.TakeWhile
import PpssppDfx.Probe.Observe

/-!
# Suspecting stale addresses

An address that no longer points at live state reads zero for ever. Every successful reading
is therefore recorded in a streak of its session and address, which a zero extends and any
other value ends; from three zeros in a row on, the reading is labeled as suspected stale.

The streak is meant to be per call, but it is fed once per probe. What a call's probes read
at an address they share counts as often as it was read.

## Main definitions

* `Probe.classifyProbeReading`, `Probe.observe` — `classify_probe_reading` and the labels of
  an observation
* `Probe.Stale` — the last three calls that cover an address all read zero
* `Probe.Faithful` — in every call of a run the labels say which addresses are stale
* `Probe.Call.Steady` — an address that is read more than once does not read zero first, last
  or three times in a row

## Main results

* `streaksAfter_eq_zeroCalls` — over steady calls a streak counts calls
* `faithful_of_steady` — runs of steady calls are faithful, and any other call is part of a
  run that is not
-/

set_option autoImplicit false

namespace Probe

open Function

/-! ## Streaks -/

/-- `VALUE_OK` and `VALUE_STALE_SUSPECTED`. -/
inductive ValueStatus
  | ok
  | staleAddressSuspected
  deriving DecidableEq

def staleAddressStreak : ℕ := 3

/-- `_ZERO_STREAKS`: the zeros in a row, by session and address. -/
abbrev ZeroStreaks := String × ℕ → ℕ

/-- What a reading makes of a streak. -/
def extend (streak : ℕ) (value : ℤ) : ℕ := if value = 0 then streak + 1 else 0

def staleNote (address streak : ℕ) : String :=
  "address 0x" ++ Python.hex08 address ++ " has read zero " ++ toString streak ++
    " times in a row (>= " ++ toString staleAddressStreak ++
    "); suspect the probe address is stale -- " ++
    "this is a suspicion, not a verdict: the value may genuinely be zero"

/-- The status and the note of a reading, by the streak that it leaves. -/
def judge (address streak : ℕ) : ValueStatus × String :=
  if staleAddressStreak ≤ streak then (.staleAddressSuspected, staleNote address streak)
  else (.ok, "")

/-- `classify_probe_reading`. -/
def classifyProbeReading (streaks : ZeroStreaks) (session : String) (address : ℕ) (value : ℤ) :
    ZeroStreaks × ValueStatus × String :=
  let streak := extend (streaks (session, address)) value
  (update streaks (session, address) streak, judge address streak)

structure LabeledObservation extends ProbeObservation where
  valueStatus : ValueStatus
  note : String
  deriving DecidableEq

/-- The loop over the observations of a call. -/
def annotate (session : String) :
    ZeroStreaks → List ProbeObservation → ZeroStreaks × List LabeledObservation
  | streaks, [] => (streaks, [])
  | streaks, obs :: rest =>
    if obs.error ≠ "" then
      -- a failed read never reached memory: it feeds no streak
      let (after, labeled) := annotate session streaks rest
      (after, ⟨obs, .ok, ""⟩ :: labeled)
    else
      let (next, status, note) := classifyProbeReading streaks session obs.address obs.value
      let (after, labeled) := annotate session next rest
      (after, ⟨obs, status, note⟩ :: labeled)

/-- A call of `observe`: its session, and what its probes yielded. A health check is a call
with one observation. -/
structure Call where
  session : String
  result : ObservationResult

structure LabeledResult where
  observations : List LabeledObservation
  count : ℕ
  successCount : ℕ
  failureCount : ℕ

/-- The labels of a call. -/
def observe (streaks : ZeroStreaks) (call : Call) : ZeroStreaks × LabeledResult :=
  let (after, labeled) := annotate call.session streaks call.result.observations
  (after, ⟨labeled, call.result.count, call.result.successCount, call.result.failureCount⟩)

def streaksAfter (calls : List Call) : ZeroStreaks :=
  calls.foldl (fun streaks call => (observe streaks call).1) fun _ => 0

/-! ## Stale addresses -/

/-- What the successful reads of an address yielded, in their order. -/
def readingsAt (address : ℕ) (observations : List ProbeObservation) : List ℤ :=
  observations.filterMap fun o => if o.error = "" ∧ o.address = address then some o.value else none

def Call.readings (call : Call) (address : ℕ) : List ℤ :=
  readingsAt address call.result.observations

/-- The calls of a session that read an address successfully. -/
def covering (session : String) (address : ℕ) (calls : List Call) : List Call :=
  calls.filter fun call => call.session = session ∧ call.readings address ≠ []

/-- The call read nothing but zero. -/
def Call.ReadsZero (address : ℕ) (call : Call) : Prop := ∀ v ∈ call.readings address, v = 0

instance (address : ℕ) (call : Call) : Decidable (call.ReadsZero address) :=
  inferInstanceAs (Decidable (∀ v ∈ call.readings address, v = 0))

/-- At least three calls of the session cover the address, and the last three read zero. -/
def Stale (session : String) (address : ℕ) (calls : List Call) : Prop :=
  3 ≤ (covering session address calls).length ∧
    ∀ call ∈ (covering session address calls).reverse.take 3, call.ReadsZero address

/-- In every call of the run, what is labeled as suspected stale are the successful
observations of stale addresses. -/
def Faithful (calls : List Call) : Prop :=
  ∀ before call after, calls = before ++ call :: after →
    ∀ o ∈ (observe (streaksAfter before) call).2.observations,
      o.valueStatus = .staleAddressSuspected ↔
        o.error = "" ∧ Stale call.session o.address (before ++ [call])

/-- An address is read once in a call; or the first and the last reading are not zero, and no
three in a row are. -/
def SteadyReadings (readings : List ℤ) : Prop :=
  readings.length ≤ 1 ∨
    readings.head? ≠ some 0 ∧ readings.getLast? ≠ some 0 ∧ ¬ List.replicate 3 0 <:+: readings

def Call.Steady (call : Call) : Prop := ∀ address, SteadyReadings (call.readings address)

/-! ## The readings of an address -/

section Readings

variable {readings front back : List ℤ} {streak n : ℕ}

theorem foldl_extend_of_zero (h : ∀ v ∈ readings, v = 0) :
    readings.foldl extend streak = streak + readings.length := by
  induction readings generalizing streak with
  | nil => rfl
  | cons v readings ih =>
    have hzero : extend streak v = streak + 1 := if_pos (h v List.mem_cons_self)
    rw [List.foldl_cons, hzero, ih fun w hw => h w (List.mem_cons_of_mem _ hw), List.length_cons,
      Nat.add_right_comm, Nat.add_assoc]

/-- A streak ends with a last reading other than zero. -/
theorem foldl_extend_of_getLast (hne : readings ≠ []) (hlast : readings.getLast? ≠ some 0) :
    readings.foldl extend streak = 0 := by
  induction readings using List.reverseRecOn with
  | nil => exact absurd rfl hne
  | append_singleton readings v _ =>
    rw [List.getLast?_concat, ne_eq, Option.some.injEq] at hlast
    rw [List.foldl_append]
    exact if_neg hlast

/-- A streak comes from zeros at the end, or else has lasted from before. -/
theorem zeros_of_le_foldl_extend (h : n ≤ readings.foldl extend streak) :
    (∀ v ∈ readings, v = 0) ∨ List.replicate n 0 <:+ readings := by
  induction readings using List.reverseRecOn generalizing n with
  | nil => exact .inl fun v hv => absurd hv List.not_mem_nil
  | append_singleton readings v ih =>
    cases n with
    | zero => exact .inr (List.nil_suffix)
    | succ n =>
      rw [List.foldl_append, List.foldl_cons, List.foldl_nil, extend] at h
      split at h
      case isTrue hv =>
        subst hv
        rcases ih (Nat.le_of_succ_le_succ h) with hzero | ⟨front, rfl⟩
        · refine .inl fun w hw => ?_
          rcases List.mem_append.mp hw with hw | hw
          · exact hzero w hw
          · exact List.mem_singleton.mp hw
        · exact .inr ⟨front, by rw [List.replicate_succ', List.append_assoc]⟩
      case isFalse => exact absurd h (Nat.not_succ_le_zero n)

theorem le_foldl_extend_replicate (front : List ℤ) (streak n : ℕ) :
    n ≤ (front ++ List.replicate n 0).foldl extend streak := by
  rw [List.foldl_append, foldl_extend_of_zero fun v hv => List.eq_of_mem_replicate hv,
    List.length_replicate]
  exact Nat.le_add_left n _

/-- Steady readings extend a streak by one, or end it. -/
theorem SteadyReadings.foldl_eq (h : SteadyReadings readings) (hne : readings ≠ []) :
    readings.foldl extend streak = if ∀ v ∈ readings, v = 0 then streak + 1 else 0 := by
  rcases h with hlength | ⟨hhead, hlast, -⟩
  · obtain ⟨v, rfl⟩ : ∃ v, readings = [v] := by
      have hpos := List.length_pos_iff.mpr hne
      exact List.length_eq_one_iff.mp (by omega)
    simp [extend]
  · obtain ⟨v, readings, rfl⟩ := List.exists_cons_of_ne_nil hne
    have hnot : ¬ ∀ w ∈ v :: readings, w = 0 := fun hzero =>
      hhead (congrArg some (hzero v List.mem_cons_self))
    rw [if_neg hnot, foldl_extend_of_getLast hne hlast]

/-- Steady readings agree on whether the streak is long. -/
theorem SteadyReadings.long_iff {v : ℤ} (h : SteadyReadings (front ++ v :: back)) :
    3 ≤ (front ++ [v]).foldl extend streak ↔ 3 ≤ (front ++ v :: back).foldl extend streak := by
  rcases h with hlength | ⟨hhead, hlast, hrow⟩
  · rw [List.length_append, List.length_cons] at hlength
    obtain rfl : back = [] := List.length_eq_zero_iff.mp (by omega)
    rfl
  · rw [foldl_extend_of_getLast (by simp) hlast]
    refine iff_of_false (fun hlong => ?_) (by decide)
    rcases zeros_of_le_foldl_extend hlong with hzero | hsuffix
    · -- the first of all is among the readings so far
      apply hhead
      cases front with
      | nil => exact congrArg some (hzero v List.mem_cons_self)
      | cons w front => exact congrArg some (hzero w List.mem_cons_self)
    · exact hrow (hsuffix.isInfix.trans ⟨[], back, by simp⟩)

end Readings

/-! ## One call -/

section Labels

variable {streaks : ZeroStreaks} {session : String} {address : ℕ} {obs : ProbeObservation}
  {rest : List ProbeObservation} {o : LabeledObservation}

/-- An observation is what its address read, or nothing. -/
def ProbeObservation.readings (obs : ProbeObservation) (address : ℕ) : List ℤ :=
  readingsAt address [obs]

theorem readingsAt_append (front back : List ProbeObservation) :
    readingsAt address (front ++ back) = readingsAt address front ++ readingsAt address back :=
  List.filterMap_append

theorem readingsAt_cons :
    readingsAt address (obs :: rest) = obs.readings address ++ readingsAt address rest :=
  readingsAt_append [obs] rest

theorem readings_of_error (h : obs.error ≠ "") : obs.readings address = [] := by
  simp [ProbeObservation.readings, readingsAt, h]

theorem readings_of_success (h : obs.error = "") : obs.readings obs.address = [obs.value] := by
  simp [ProbeObservation.readings, readingsAt, h]

theorem readings_of_ne (h : obs.address ≠ address) : obs.readings address = [] := by
  simp [ProbeObservation.readings, readingsAt, h]

/-- What an observation leaves of the streaks. -/
def fed (streaks : ZeroStreaks) (session : String) (obs : ProbeObservation) : ZeroStreaks :=
  if obs.error ≠ "" then streaks
  else (classifyProbeReading streaks session obs.address obs.value).1

/-- The label of an observation. -/
def label (streaks : ZeroStreaks) (session : String) (obs : ProbeObservation) :
    ValueStatus × String :=
  if obs.error ≠ "" then (.ok, "")
  else (classifyProbeReading streaks session obs.address obs.value).2

theorem annotate_cons : annotate session streaks (obs :: rest) =
    ((annotate session (fed streaks session obs) rest).1,
      ⟨obs, (label streaks session obs).1, (label streaks session obs).2⟩ ::
        (annotate session (fed streaks session obs) rest).2) := by
  rw [annotate, fed, label]
  split <;> rfl

theorem fed_apply (key : String × ℕ) : fed streaks session obs key =
    if key.1 = session then (obs.readings key.2).foldl extend (streaks key) else streaks key := by
  obtain ⟨session', address⟩ := key
  rw [fed]
  split
  case isTrue herror =>
    rw [readings_of_error herror, List.foldl_nil, ite_self]
  case isFalse hok =>
    show update streaks (session, obs.address) _ (session', address) = _
    by_cases haddress : obs.address = address
    · subst haddress
      rw [readings_of_success (not_not.mp hok), List.foldl_cons, List.foldl_nil]
      by_cases hsession : session' = session
      · rw [if_pos hsession, hsession, update_self]
      · rw [if_neg hsession, update_of_ne fun heq => hsession (congrArg Prod.fst heq)]
    · rw [readings_of_ne haddress, List.foldl_nil, ite_self,
        update_of_ne fun heq => haddress (Prod.mk.inj heq).2.symm]

/-- Each streak of the session is extended by the readings of its address, one by one. -/
theorem annotate_streaks (observations : List ProbeObservation) (key : String × ℕ) :
    (annotate session streaks observations).1 key =
      if key.1 = session then (readingsAt key.2 observations).foldl extend (streaks key)
      else streaks key := by
  induction observations generalizing streaks with
  | nil => exact (ite_self _).symm
  | cons obs rest ih =>
    rw [annotate_cons, ih, fed_apply, readingsAt_cons, List.foldl_append]
    split <;> rfl

/-- Before the next observation the streaks are what those so far have made of them. -/
theorem mem_annotate {observations : List ProbeObservation} :
    o ∈ (annotate session streaks observations).2 ↔
      ∃ front back, observations = front ++ o.toProbeObservation :: back ∧
        (o.valueStatus, o.note) =
          label (annotate session streaks front).1 session o.toProbeObservation := by
  induction observations generalizing streaks with
  | nil =>
    constructor
    · exact fun h => absurd h List.not_mem_nil
    · rintro ⟨front, back, heq, -⟩
      exact absurd heq (by simp)
  | cons obs rest ih =>
    rw [annotate_cons, List.mem_cons, ih]
    constructor
    · rintro (rfl | ⟨front, back, rfl, hlabel⟩)
      · exact ⟨[], rest, rfl, rfl⟩
      · exact ⟨obs :: front, back, rfl, by rw [annotate_cons]; exact hlabel⟩
    · rintro ⟨front, back, heq, hlabel⟩
      cases front with
      | nil =>
        obtain ⟨rfl, rfl⟩ := List.cons.inj heq
        have hlabeled : o = ⟨o.toProbeObservation, o.valueStatus, o.note⟩ := rfl
        refine .inl (hlabeled.trans ?_)
        rw [(Prod.mk.inj hlabel).1, (Prod.mk.inj hlabel).2]
        rfl
      | cons head front =>
        obtain ⟨rfl, rfl⟩ := List.cons.inj heq
        rw [annotate_cons] at hlabel
        exact .inr ⟨front, back, rfl, hlabel⟩

/-- A label suspects the address if the readings so far have made the streak long. -/
theorem label_eq_stale_iff {front : List ProbeObservation} :
    (label (annotate session streaks front).1 session obs).1 = .staleAddressSuspected ↔
      obs.error = "" ∧
        3 ≤ (readingsAt obs.address (front ++ [obs])).foldl extend
          (streaks (session, obs.address)) := by
  rw [label]
  split
  case isTrue herror => exact iff_of_false (by rintro ⟨⟩) fun h => herror h.1
  case isFalse hok =>
    have hsuccess := not_not.mp hok
    have hlast : readingsAt obs.address [obs] = [obs.value] := readings_of_success hsuccess
    rw [classifyProbeReading, annotate_streaks, if_pos rfl, readingsAt_append, hlast,
      List.foldl_append, List.foldl_cons, List.foldl_nil, judge]
    split
    case isTrue hlong => exact iff_of_true rfl ⟨hsuccess, hlong⟩
    case isFalse hshort => exact iff_of_false (by rintro ⟨⟩) fun h => hshort h.2

end Labels

/-! ## Counting calls -/

section Calls

variable {calls : List Call} {call : Call} {session : String} {address : ℕ}

/-- The calls, from the last one back, that cover the address and read zero. -/
def zeroCalls (session : String) (address : ℕ) (calls : List Call) : ℕ :=
  ((covering session address calls).reverse.takeWhile fun call => call.ReadsZero address).length

theorem le_length_takeWhile_iff {α : Type*} (p : α → Bool) (n : ℕ) (l : List α) :
    n ≤ (l.takeWhile p).length ↔ n ≤ l.length ∧ ∀ x ∈ l.take n, p x = true := by
  induction l generalizing n with
  | nil => simp
  | cons x l ih =>
    cases n with
    | zero => simp
    | succ n =>
      rw [List.takeWhile_cons]
      cases hx : p x with
      | true => simp [ih, hx]
      | false => simp [hx]

theorem stale_iff : Stale session address calls ↔ 3 ≤ zeroCalls session address calls := by
  rw [Stale, zeroCalls, le_length_takeWhile_iff, List.length_reverse]
  simp only [decide_eq_true_eq]

theorem covering_concat : covering session address (calls ++ [call]) =
    covering session address calls ++
      if call.session = session ∧ call.readings address ≠ [] then [call] else [] := by
  rw [covering, List.filter_append, List.filter_cons, List.filter_nil]
  simp only [decide_eq_true_eq]
  rfl

theorem zeroCalls_concat (session : String) (address : ℕ) (calls : List Call) (call : Call) :
    zeroCalls session address (calls ++ [call]) =
    if call.session = session ∧ call.readings address ≠ [] then
      if call.ReadsZero address then zeroCalls session address calls + 1 else 0
    else zeroCalls session address calls := by
  rw [zeroCalls, covering_concat]
  split
  case isTrue =>
    rw [List.reverse_append, List.reverse_singleton, List.singleton_append, List.takeWhile_cons]
    by_cases hzero : call.ReadsZero address
    · rw [if_pos hzero, if_pos (decide_eq_true hzero), List.length_cons]
      rfl
    · rw [if_neg hzero, if_neg (by simpa using hzero), List.length_nil]
  case isFalse =>
    rw [List.append_nil]
    rfl

theorem streaksAfter_concat (calls : List Call) (call : Call) (key : String × ℕ) :
    streaksAfter (calls ++ [call]) key =
    if key.1 = call.session then (call.readings key.2).foldl extend (streaksAfter calls key)
    else streaksAfter calls key := by
  rw [streaksAfter, List.foldl_append]
  exact annotate_streaks call.result.observations key

/-- Over steady calls a streak counts the calls that read zero. -/
theorem streaksAfter_eq_zeroCalls (hsteady : ∀ call ∈ calls, call.Steady) :
    streaksAfter calls (session, address) = zeroCalls session address calls := by
  induction calls using List.reverseRecOn with
  | nil => rfl
  | append_singleton calls call ih =>
    have hcalls := ih fun c hc => hsteady c (List.mem_append_left _ hc)
    have hcall := hsteady call (List.mem_append_right _ List.mem_cons_self)
    rw [streaksAfter_concat, zeroCalls_concat, hcalls]
    by_cases hsession : session = call.session
    -- a call without a successful reading of the address does not cover it
    · by_cases hnone : call.readings address = []
      · rw [if_pos hsession, if_neg fun h => h.2 hnone, hnone, List.foldl_nil]
      · rw [if_pos hsession, if_pos ⟨hsession.symm, hnone⟩, (hcall address).foldl_eq hnone]
        rfl
    · rw [if_neg hsession, if_neg fun h => hsession h.1.symm]

end Calls

/-! ## Labels of a run -/

section Runs

variable {before after calls : List Call} {call : Call} {streaks : ZeroStreaks}
  {observations front back : List ProbeObservation} {obs : ProbeObservation} {session : String}
  {address : ℕ}

theorem faithful_of_forall_steady (hsteady : ∀ call ∈ calls, call.Steady) : Faithful calls := by
  rintro before call after rfl o ho
  have hcall : call.Steady := hsteady call (by simp)
  have hsofar : ∀ c ∈ before ++ [call], c.Steady := fun c hc => hsteady c (by
    rcases List.mem_append.mp hc with hc | hc
    · exact List.mem_append_left _ hc
    · exact List.mem_append_right _ (List.mem_singleton.mp hc ▸ List.mem_cons_self))
  obtain ⟨front, back, hsplit, hlabel⟩ := mem_annotate.mp ho
  have hstatus : o.valueStatus = (label (annotate call.session (streaksAfter before) front).1
      call.session o.toProbeObservation).1 := congrArg Prod.fst hlabel
  rw [hstatus, label_eq_stale_iff, stale_iff]
  refine and_congr_right fun hok => ?_
  -- the label goes by the streak so far, which the rest of the call does not make long or short
  have hone : readingsAt o.address [o.toProbeObservation] = [o.value] := readings_of_success hok
  have hreadings : call.readings o.address =
      readingsAt o.address front ++ o.value :: readingsAt o.address back := by
    rw [Call.readings, hsplit, readingsAt_append, readingsAt_cons, readings_of_success hok]
    rfl
  have hat : SteadyReadings (call.readings o.address) := hcall o.address
  rw [hreadings] at hat
  rw [readingsAt_append, hone, hat.long_iff, ← hreadings, ← streaksAfter_eq_zeroCalls hsofar,
    streaksAfter_concat, if_pos rfl]

/-- A label that comes too early. -/
theorem not_faithful_of_long (hsplit : call.result.observations = front ++ obs :: back)
    (hok : obs.error = "")
    (hlong : 3 ≤ (readingsAt obs.address (front ++ [obs])).foldl extend
      (streaksAfter before (call.session, obs.address)))
    (hfew : zeroCalls call.session obs.address (before ++ [call]) < 3) :
    ¬ Faithful (before ++ call :: after) := by
  intro hfaithful
  let given := label (annotate call.session (streaksAfter before) front).1 call.session obs
  have hmem : (⟨obs, given.1, given.2⟩ : LabeledObservation) ∈
      (observe (streaksAfter before) call).2.observations :=
    mem_annotate.mpr ⟨front, back, hsplit, rfl⟩
  have hstale := (hfaithful before call after rfl _ hmem).mp (label_eq_stale_iff.mpr ⟨hok, hlong⟩)
  exact absurd (stale_iff.mp hstale.2) (Nat.not_le.mpr hfew)

/-- Where a reading of a call came from. -/
theorem exists_of_readingsAt {early late : List ℤ} {v : ℤ}
    (h : readingsAt address observations = early ++ v :: late) :
    ∃ front obs back, observations = front ++ obs :: back ∧ obs.error = "" ∧
      obs.address = address ∧ obs.value = v ∧ readingsAt address front = early := by
  obtain ⟨front, rest, rfl, hfront, hrest⟩ := List.filterMap_eq_append_iff.mp h
  obtain ⟨skipped, obs, back, rfl, hskipped, hobs, -⟩ := List.filterMap_eq_cons_iff.mp hrest
  split at hobs
  case isTrue hat =>
    refine ⟨front ++ skipped, obs, back, by simp, hat.1, hat.2, Option.some.inj hobs, ?_⟩
    have hnone : readingsAt address skipped = [] := List.filterMap_eq_nil_iff.mpr hskipped
    rw [readingsAt_append, hnone, List.append_nil]
    exact hfront
  case isFalse => cases hobs

/-! ### Calls that read zero once -/

def zeroObservation (address : ℕ) : ProbeObservation := ⟨"probe", address, 4, 0, ""⟩

/-- A call with one probe, which reads zero. -/
def zeroCall (session : String) (address : ℕ) : Call :=
  ⟨session, [zeroObservation address], 1, 1, 0⟩

theorem readings_zeroCall : (zeroCall session address).readings address = [0] :=
  readings_of_success (rfl : (zeroObservation address).error = "")

theorem steady_zeroCall : (zeroCall session address).Steady :=
  fun _ => .inl (List.length_filterMap_le _ _)

/-- Each of them adds one to the streak and to the calls that read zero. -/
theorem after_zeroCalls (session : String) (address : ℕ) (calls : List Call) (n : ℕ) :
    streaksAfter (calls ++ List.replicate n (zeroCall session address)) (session, address) =
        streaksAfter calls (session, address) + n ∧
      zeroCalls session address (calls ++ List.replicate n (zeroCall session address)) =
        zeroCalls session address calls + n := by
  induction n with
  | zero => exact ⟨by simp, by simp⟩
  | succ n ih =>
    have hcovers : (zeroCall session address).session = session ∧
        (zeroCall session address).readings address ≠ [] :=
      ⟨rfl, by rw [readings_zeroCall]; exact List.cons_ne_nil _ _⟩
    have hzero : (zeroCall session address).ReadsZero address := by
      rw [Call.ReadsZero, readings_zeroCall]
      exact fun v hv => List.mem_singleton.mp hv
    rw [List.replicate_succ', ← List.append_assoc, streaksAfter_concat, zeroCalls_concat,
      if_pos hcovers.1.symm, if_pos hcovers, if_pos hzero, readings_zeroCall, ih.1, ih.2]
    exact ⟨rfl, rfl⟩

/-! ### Calls that are not steady -/

/-- The last reading is zero, and there is another one. Behind it so many calls read zero
that two calls have. -/
theorem exists_of_getLast (hmore : 1 < (call.readings address).length)
    (hlast : (call.readings address).getLast? = some 0) :
    ∃ after, (∀ c ∈ after, Call.Steady c) ∧ ¬ Faithful (call :: after) := by
  have hcovers : call.readings address ≠ [] := List.length_pos_iff.mp (by omega)
  have hcalls : zeroCalls call.session address [call] =
      if call.ReadsZero address then 1 else 0 := by
    have hconcat := zeroCalls_concat call.session address [] call
    rw [if_pos ⟨rfl, hcovers⟩] at hconcat
    exact hconcat
  have hstreak : streaksAfter [call] (call.session, address) =
      (call.readings address).foldl extend 0 := by
    have hconcat := streaksAfter_concat [] call (call.session, address)
    rw [if_pos rfl] at hconcat
    exact hconcat
  -- the call counts as one at most, and its streak is longer
  have hlonger : zeroCalls call.session address [call] <
        streaksAfter [call] (call.session, address) ∧
      zeroCalls call.session address [call] ≤ 1 := by
    rw [hcalls, hstreak]
    split
    case isTrue hzero =>
      rw [foldl_extend_of_zero hzero]
      omega
    case isFalse =>
      obtain ⟨early, hearly⟩ := List.getLast?_eq_some_iff.mp hlast
      rw [hearly]
      exact ⟨le_foldl_extend_replicate early 0 1, Nat.zero_le 1⟩
  generalize hd : zeroCalls call.session address [call] = d at hlonger
  let zero := zeroCall call.session address
  obtain ⟨hstreaks, hzeros⟩ := after_zeroCalls call.session address [call] (1 - d)
  obtain ⟨-, hzeros'⟩ := after_zeroCalls call.session address [call] (1 - d + 1)
  refine ⟨List.replicate (1 - d) zero ++ [zero], fun c hc => ?_, ?_⟩
  · rcases List.mem_append.mp hc with hc | hc
    · exact List.eq_of_mem_replicate hc ▸ steady_zeroCall
    · exact List.mem_singleton.mp hc ▸ steady_zeroCall
  · have hsplit : zero.result.observations = [] ++ zeroObservation address :: [] := rfl
    have hlong : 3 ≤ (zero.readings address).foldl extend
        (streaksAfter ([call] ++ List.replicate (1 - d) zero) (call.session, address)) := by
      rw [readings_zeroCall, hstreaks]
      show 3 ≤ streaksAfter [call] (call.session, address) + (1 - d) + 1
      omega
    have hfew : zeroCalls call.session address
        ([call] ++ List.replicate (1 - d) zero ++ [zero]) < 3 := by
      rw [List.append_assoc, ← List.replicate_succ', hzeros', hd]
      omega
    exact not_faithful_of_long hsplit rfl hlong hfew

/-- The last reading is not zero, but zeros before it make a long streak, of which two calls
were enough. -/
theorem not_faithful_of_early {early late : List ℤ}
    (hlast : (call.readings address).getLast? ≠ some 0)
    (hreadings : call.readings address = early ++ 0 :: late)
    (hlong : 3 ≤ (early ++ [0]).foldl extend 2) :
    ¬ Faithful (List.replicate 2 (zeroCall call.session address) ++ call :: []) := by
  obtain ⟨front, obs, back, hsplit, hok, rfl, hvalue, hearly⟩ := exists_of_readingsAt hreadings
  obtain ⟨hstreaks, -⟩ := after_zeroCalls call.session obs.address [] 2
  refine not_faithful_of_long hsplit hok ?_ ?_
  · have hone : readingsAt obs.address [obs] = [0] := hvalue ▸ readings_of_success hok
    rw [readingsAt_append, hearly, hone]
    rw [List.nil_append] at hstreaks
    rw [hstreaks]
    exact hlong
  · have hcovers : call.readings obs.address ≠ [] := by rw [hreadings]; simp
    have hnot : ¬ call.ReadsZero obs.address := fun hzero => by
      cases hend : (call.readings obs.address).getLast? with
      | none => exact hcovers (List.getLast?_eq_none_iff.mp hend)
      | some v => exact hlast (hend.trans (congrArg some (hzero v (List.mem_of_getLast? hend))))
    rw [zeroCalls_concat, if_pos ⟨rfl, hcovers⟩, if_neg hnot]
    decide

theorem exists_not_faithful (hcall : ¬ call.Steady) :
    ∃ before after, (∀ c ∈ before ++ after, Call.Steady c) ∧
      ¬ Faithful (before ++ call :: after) := by
  obtain ⟨address, hcall⟩ := not_forall.mp hcall
  obtain ⟨hmore, hreadings⟩ := not_or.mp hcall
  by_cases hlast : (call.readings address).getLast? = some 0
  · obtain ⟨after, hsteady, hnot⟩ := exists_of_getLast (Nat.lt_of_not_le hmore) hlast
    exact ⟨[], after, hsteady, hnot⟩
  · -- zero comes first, or three times in a row
    have hearly : ∃ early late, call.readings address = early ++ 0 :: late ∧
        3 ≤ (early ++ [0]).foldl extend 2 := by
      by_cases hhead : (call.readings address).head? = some 0
      · obtain ⟨late, hlate⟩ := List.head?_eq_some_iff.mp hhead
        exact ⟨[], late, hlate, by decide⟩
      · obtain ⟨early, late, hrow⟩ := not_not.mp fun hrow => hreadings ⟨hhead, hlast, hrow⟩
        refine ⟨early ++ List.replicate 2 0, late, by rw [← hrow]; simp, ?_⟩
        rw [List.append_assoc, ← List.replicate_succ']
        exact le_foldl_extend_replicate early 2 3
    obtain ⟨early, late, hsplit, hlong⟩ := hearly
    refine ⟨_, [], fun c hc => ?_, not_faithful_of_early hlast hsplit hlong⟩
    rw [List.append_nil] at hc
    exact List.eq_of_mem_replicate hc ▸ steady_zeroCall

/-- A run of steady calls labels what is stale, no more and no less. No other call is
harmless: some run of which it is part, with nothing but steady calls beside it, labels an
address too early. -/
theorem faithful_of_steady (calls : List Call) :
    ((∀ call ∈ calls, call.Steady) → Faithful calls) ∧
      ∀ call ∈ calls, ¬ call.Steady → ∃ before after, (∀ c ∈ before ++ after, Call.Steady c) ∧
        ¬ Faithful (before ++ call :: after) :=
  ⟨faithful_of_forall_steady, fun _ _ => exists_not_faithful⟩

end Runs

/-- Two probes of one address, between which the game writes it. -/
def writtenCall : Call :=
  ⟨"s", [⟨"lives", 0x08A0D000, 4, 3, ""⟩, ⟨"lives_low", 0x08A0D000, 1, 2, ""⟩], 2, 2, 0⟩

/-- After it the address is suspected in the third call that reads zero. -/
theorem faithful_writtenCall :
    let calls := writtenCall :: List.replicate 2 (zeroCall "s" 0x08A0D000)
    Faithful (calls ++ [zeroCall "s" 0x08A0D000]) ∧
      (observe (streaksAfter calls) (zeroCall "s" 0x08A0D000)).2.observations =
        [⟨zeroObservation 0x08A0D000, .staleAddressSuspected, staleNote 0x08A0D000 3⟩] := by
  refine ⟨(faithful_of_steady _).1 fun call hcall => ?_, rfl⟩
  rcases List.mem_append.mp hcall with hcall | hlast
  · rcases List.mem_cons.mp hcall with rfl | hzero
    · intro address
      by_cases haddress : address = 0x08A0D000
      · exact .inr (by subst haddress; decide)
      · have hnone : writtenCall.readings address = [] := by
          simp [Call.readings, readingsAt, writtenCall, Ne.symm haddress]
        exact .inl (by rw [hnone]; exact Nat.zero_le 1)
    · exact List.eq_of_mem_replicate hzero ▸ steady_zeroCall
  · exact List.mem_singleton.mp hlast ▸ steady_zeroCall

/-- Two probes of one address, which read zero. -/
def sharedCall : Call :=
  ⟨"s", [⟨"lives", 0x08A0D000, 4, 0, ""⟩, ⟨"lives_low", 0x08A0D000, 1, 0, ""⟩], 2, 2, 0⟩

/-- In the second call the address is suspected. -/
theorem not_faithful_sharedCall : ¬ ∀ calls, Faithful calls := by
  intro hfaithful
  have hstale := hfaithful [sharedCall, sharedCall] [sharedCall] sharedCall [] rfl
    ⟨⟨"lives", 0x08A0D000, 4, 0, ""⟩, .staleAddressSuspected, staleNote 0x08A0D000 3⟩
    List.mem_cons_self
  exact absurd (hstale.mp rfl).2.1 (by decide)

end Probe
