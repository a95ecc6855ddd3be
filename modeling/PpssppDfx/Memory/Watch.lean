import Mathlib.Tactic.Ring
import PpssppDfx.Breakpoint.CondFilter
import PpssppDfx.Scan.Value
import PpssppDfx.Semantics.Changelog

/-!
# Watching a value

`watch_value` reads an address at a fixed cadence of frames and writes down every change. The
watch ends with the window or with the 64th change. That change is written down before the
last value and the number of samples are brought up to date, and the loop is left in between:
a watch that ends so reports a last value from before its last change, and one sample too few.

What the reads give, when they are made and whether a wait is interrupted comes from outside.

## Main definitions

* `Watch.Query.watch` — `watch_value`
* `Watch.Report.Consistent` — the changes lead from the first value to the last, and every
  successful read is counted
* `Watch.Query.window` — the values that a watch of the whole window reads

## Main results

* `watch_isSome` — a watch ends with a report or an exception
* `consistent_iff` — reports are consistent exactly when the window has fewer than 64 changes
-/

set_option autoImplicit false

namespace Watch

open Python Semantics
open Scan (Width)

/-- The arguments of a call; the address is what `parse_address` makes of its text. -/
structure Query where
  address : ℤ
  mode : Width
  intervalFrames : ℤ
  durationFrames : ℤ

/-- What a call meets. -/
structure World where
  /-- `validate_session_alive` and `session_client` let the call through. -/
  opens : Bool
  /-- What the read gives, by the number of reads before it; `none` when it raises. -/
  read : ℕ → Option (List UInt8)
  /-- The seconds since the start at this read, rounded to milliseconds. -/
  elapsed : ℕ → ℚ
  /-- The wait after this read is not interrupted. -/
  wakes : ℕ → Bool

structure Change where
  frame : ℤ
  tS : ℚ
  old : Option ℕ
  new : ℕ

/-- The variables of the loop. -/
structure Progress where
  changes : List Change
  firstValue : Option ℕ
  lastValue : Option ℕ
  samples : ℕ
  frame : ℤ

/-- The variables before the loop. -/
def Progress.start : Progress := ⟨[], none, none, 0, 0⟩

/-- `WatchValueOutput`. -/
structure Report where
  address : String
  size : ℕ
  mode : String
  samples : ℕ
  firstValue : Option ℕ
  lastValue : Option ℕ
  changes : List Change
  changeCount : ℕ

inductive Failure where
  | argsInvalid (message : String)
  /-- What a read, a wait or the session raised. -/
  | raised

/-- How a pass through the loop ends. -/
inductive Poll where
  | goOn (p : Progress)
  | leave (p : Progress)
  | stop (failure : Failure)

/-- The most changes of a report. -/
def changeCap : ℕ := 64

def durationCap : ℤ := 18000

namespace Query

variable (q : Query) (w : World)

/-- The checks of the arguments. -/
def refusal : Option String :=
  if durationCap < q.durationFrames then
    some ("duration_frames " ++ toString q.durationFrames ++ " exceeds the cap 18000")
  else if q.intervalFrames < 1 then
    some ("interval_frames must be >= 1 (got " ++ toString q.intervalFrames ++ ")")
  else if q.durationFrames < q.intervalFrames then
    some ("interval_frames " ++ toString q.intervalFrames ++ " exceeds duration_frames " ++
      toString q.durationFrames ++ " — the poll cadence cannot outrun the watch window")
  else none

/-- The variables once the value is taken over and the next frames have passed. -/
def settled (value : ℕ) (p : Progress) : Progress :=
  { p with
    lastValue := some value
    samples := p.samples + 1
    -- the last wait is cut off at the end of the window
    frame := p.frame + min q.intervalFrames (q.durationFrames - p.frame) }

/-- The rest of a pass: the value is taken over and the next frames are waited for. -/
def settle (n : ℕ) (value : ℕ) (p : Progress) : Poll :=
  if w.wakes n then .goOn (q.settled value p) else .stop .raised

/-- A pass through the loop, the first value or a later one. -/
def note (n : ℕ) (value : ℕ) (p : Progress) : Poll :=
  match p.firstValue with
  | none => q.settle w n value { p with firstValue := some value }
  | some _ =>
    if some value = p.lastValue then q.settle w n value p
    else
      let noted := { p with
        changes := p.changes ++ [⟨p.frame, w.elapsed n, p.lastValue, value⟩] }
      if changeCap ≤ noted.changes.length then .leave noted else q.settle w n value noted

/-- The value that the read gives, or how it fails. -/
def sample (n : ℕ) : Except Failure ℕ :=
  match w.read n with
  | none => .error .raised
  | some raw =>
    if raw.length ≠ q.mode.size then
      .error (.argsInvalid ("short read at 0x" ++ hex08 q.address ++ ": got " ++
        toString raw.length ++ " of " ++ toString q.mode.size ++ " bytes"))
    else .ok (littleEndian (raw.take q.mode.size))

/-- A pass through the loop. -/
def poll (n : ℕ) (p : Progress) : Poll :=
  match q.sample w n with
  | .error failure => .stop failure
  | .ok value => q.note w n value p

/-- The loop, from the `n`th read on: its variables at the end and the number of reads, all of
them successful. It is `none` when the fuel does not last. -/
def loop : ℕ → ℕ → Progress → Option (Except Failure (Progress × ℕ))
  | fuel, n, p =>
    if p.frame < q.durationFrames then
      match fuel with
      | 0 => none
      | fuel + 1 =>
        match q.poll w n p with
        | .goOn p => loop fuel (n + 1) p
        | .leave p => some (.ok (p, n + 1))
        | .stop failure => some (.error failure)
    else some (.ok (p, n))

def report (p : Progress) : Report where
  address := Breakpoint.formatAddress q.address
  size := q.mode.size
  mode := q.mode.name
  samples := p.samples
  firstValue := p.firstValue
  lastValue := p.lastValue
  changes := p.changes
  changeCount := p.changes.length

/-- `watch_value`: the report and the number of successful reads, or the failure. -/
def watch : Option (Except Failure (Report × ℕ)) :=
  match q.refusal with
  | some message => some (.error (.argsInvalid message))
  | none =>
    if w.opens then
      -- every pass takes a frame at least, so a pass for each frame of the window is enough
      (q.loop w q.durationFrames.toNat 0 .start).map fun ended =>
        ended.map fun result => (q.report result.1, result.2)
    else some (.error .raised)

/-! ## The whole window -/

/-- The passes that a window has left at a frame. -/
def passesFrom (frame : ℤ) : ℕ :=
  ((q.durationFrames - frame + q.intervalFrames - 1) / q.intervalFrames).toNat

/-- The values of the next passes, up to a read that fails or a wait that is interrupted. -/
def valuesFrom : ℕ → ℕ → List ℕ
  | 0, _ => []
  | passes + 1, n =>
    match q.sample w n with
    | .error _ => []
    | .ok value => value :: if w.wakes n then valuesFrom passes (n + 1) else []

/-- The values that a watch of the whole window reads. -/
def window : List ℕ := q.valuesFrom w (q.passesFrom 0) 0

end Query

/-- The changes lead from the first value to the last, and every successful read is
counted. -/
structure Report.Consistent (r : Report) (reads : ℕ) : Prop where
  linked : Linked Change.old Change.new r.firstValue r.changes r.lastValue
  counted : r.samples = reads

/-! ## One pass -/

variable {q : Query} {w : World} {n : ℕ} {p : Progress}

/-- What the variables say between two passes, after `n` reads. -/
structure Progress.Sound (n : ℕ) (p : Progress) : Prop where
  linked : Linked Change.old Change.new p.firstValue p.changes p.lastValue
  counted : p.samples = n
  below : p.changes.length < changeCap
  started : p.firstValue = none → p.changes = [] ∧ p.lastValue = none

/-- The variables with the value written down as the first one or as a change. -/
def Progress.noted (tS : ℚ) (value : ℕ) (p : Progress) : Progress :=
  match p.firstValue with
  | none => { p with firstValue := some value }
  | some _ =>
    if some value = p.lastValue then p
    else { p with changes := p.changes ++ [⟨p.frame, tS, p.lastValue, value⟩] }

theorem changesFrom_eq_one {last : Option ℕ} {value : ℕ} (hlast : last ≠ none)
    (hne : some value ≠ last) : changesFrom last [value] = 1 := by
  cases last with
  | none => exact absurd rfl hlast
  | some u =>
    have hvalue : value ≠ u := fun heq => hne (congrArg some heq)
    rw [changesFrom, if_neg hvalue, changesFrom]

/-- Once there is a first value there is a last one. -/
theorem Progress.Sound.lastValue_ne_none (h : p.Sound n) {first : ℕ}
    (hfirst : p.firstValue = some first) : p.lastValue ≠ none := by
  have hlinked := h.linked
  -- it is the first value without changes, and the new value of the last change otherwise
  rcases List.eq_nil_or_concat p.changes with hnil | ⟨init, c, hconcat⟩
  · rw [hnil, hfirst] at hlinked
    rw [← show some first = p.lastValue from hlinked]
    exact Option.some_ne_none first
  · rw [hconcat, List.concat_eq_append, linked_append_singleton] at hlinked
    rw [hlinked.2]
    exact Option.some_ne_none c.new

/-- A value adds a change exactly when it differs from the one before. -/
theorem length_noted (h : p.Sound n) (tS : ℚ) (value : ℕ) :
    (p.noted tS value).changes.length = p.changes.length + changesFrom p.lastValue [value] := by
  unfold Progress.noted
  cases hfirst : p.firstValue with
  | none => rw [(h.started hfirst).2]; rfl
  | some first =>
    dsimp only
    split
    · rename_i hsame
      simp [← hsame, changesFrom]
    · rename_i hne
      rw [changesFrom_eq_one (h.lastValue_ne_none hfirst) hne]
      exact List.length_append

/-- A pass is left with the change that reaches the cap. -/
theorem note_eq (h : p.Sound n) (value : ℕ) :
    q.note w n value p =
      if changeCap ≤ (p.noted (w.elapsed n) value).changes.length then
        .leave (p.noted (w.elapsed n) value)
      else q.settle w n value (p.noted (w.elapsed n) value) := by
  have hbelow := not_le.mpr h.below
  unfold Query.note Progress.noted
  cases p.firstValue with
  | none => exact (if_neg hbelow).symm
  | some first =>
    dsimp only
    split
    · rfl
    · rfl

@[simp] theorem samples_noted (tS : ℚ) (value : ℕ) : (p.noted tS value).samples = p.samples := by
  unfold Progress.noted
  split
  · rfl
  · split <;> rfl

@[simp] theorem frame_noted (tS : ℚ) (value : ℕ) : (p.noted tS value).frame = p.frame := by
  unfold Progress.noted
  split
  · rfl
  · split <;> rfl

/-- The variables are sound again once the value is taken over. -/
theorem Progress.Sound.settled (h : p.Sound n) (tS : ℚ) (value : ℕ)
    (hbelow : (p.noted tS value).changes.length < changeCap) :
    (q.settled value (p.noted tS value)).Sound (n + 1) where
  linked := by
    have hlinked := h.linked
    unfold Query.settled Progress.noted
    cases hfirst : p.firstValue with
    | none =>
      dsimp only
      rw [(h.started hfirst).1]
      rfl
    | some first =>
      dsimp only
      rw [hfirst] at hlinked
      split
      · rename_i hsame
        rw [hfirst, hsame]
        exact hlinked
      · dsimp only
        exact linked_append_singleton.mpr ⟨hlinked, rfl⟩
  counted := congrArg (· + 1) ((samples_noted tS value).trans h.counted)
  below := hbelow
  started := by
    intro hnone
    unfold Query.settled Progress.noted at hnone
    split at hnone
    · cases hnone
    · rename_i first hfirst
      dsimp only at hnone
      split at hnone
      · rw [hfirst] at hnone; cases hnone
      · rw [hfirst] at hnone; cases hnone

/-! ## The loop -/

/-- A pass within the window, as the number of passes left counts it. -/
theorem passesFrom_succ (hinterval : 1 ≤ q.intervalFrames) {frame : ℤ}
    (hframe : frame < q.durationFrames) :
    q.passesFrom frame =
      q.passesFrom (frame + min q.intervalFrames (q.durationFrames - frame)) + 1 := by
  have hpos : 0 < q.intervalFrames := hinterval
  unfold Query.passesFrom
  rcases le_total q.intervalFrames (q.durationFrames - frame) with hfull | hcut
  · rw [min_eq_left hfull]
    have hsplit : q.durationFrames - frame + q.intervalFrames - 1 =
        q.durationFrames - (frame + q.intervalFrames) + q.intervalFrames - 1 +
          1 * q.intervalFrames := by ring
    have hleft : 0 ≤ (q.durationFrames - (frame + q.intervalFrames) + q.intervalFrames - 1) /
        q.intervalFrames := Int.ediv_nonneg (by omega) hpos.le
    rw [hsplit, Int.add_mul_ediv_right _ _ hpos.ne']
    omega
  -- the last pass of the window, which may be shorter
  · rw [min_eq_right hcut]
    have hone : (q.durationFrames - frame + q.intervalFrames - 1) / q.intervalFrames = 1 := by
      rw [Int.ediv_eq_iff_of_pos hpos]
      omega
    have hnone : (q.durationFrames - (frame + (q.durationFrames - frame)) +
        q.intervalFrames - 1) / q.intervalFrames = 0 :=
      Int.ediv_eq_zero_of_lt (by omega) (by omega)
    rw [hone, hnone]
    rfl

theorem passesFrom_of_le (hinterval : 1 ≤ q.intervalFrames) {frame : ℤ}
    (hframe : q.durationFrames ≤ frame) : q.passesFrom frame = 0 := by
  have hpos : 0 < q.intervalFrames := hinterval
  have hdiv : (q.durationFrames - frame + q.intervalFrames - 1) / q.intervalFrames < 1 :=
    Int.ediv_lt_of_lt_mul hpos (by omega)
  exact Int.toNat_eq_zero.mpr (by omega)

/-- What the end of the loop is, given how often the values of the window change. -/
structure Ends (p : Progress) (values : List ℕ) (ended : Except Failure (Progress × ℕ)) : Prop where
  below : p.changes.length + changesFrom p.lastValue values < changeCap →
    ∀ last reads, ended = .ok (last, reads) → last.Sound reads
  capped : changeCap ≤ p.changes.length + changesFrom p.lastValue values →
    ∃ last reads, ended = .ok (last, reads) ∧ last.samples + 1 = reads

/-- A loop that ends with the window. -/
theorem Ends.of_over (h : p.Sound n) : Ends p [] (.ok (p, n)) where
  below := by
    rintro - last reads ⟨⟩
    exact h
  capped := fun hcap => absurd hcap (not_le.mpr h.below)

/-- A value that is taken over counts like the variables after it. -/
theorem count_settled (h : p.Sound n) (tS : ℚ) (value : ℕ) (rest : List ℕ) :
    p.changes.length + changesFrom p.lastValue (value :: rest) =
      (q.settled value (p.noted tS value)).changes.length +
        changesFrom (q.settled value (p.noted tS value)).lastValue rest := by
  rw [changesFrom_cons, ← Nat.add_assoc, ← length_noted h tS value]
  rfl

/-- A loop that goes on after a value ends as it should if the rest of it does. -/
theorem Ends.cons (h : p.Sound n) {tS : ℚ} {value : ℕ} {rest : List ℕ}
    {ended : Except Failure (Progress × ℕ)}
    (hends : Ends (q.settled value (p.noted tS value)) rest ended) :
    Ends p (value :: rest) ended where
  below := fun hbelow => hends.below (count_settled h tS value rest ▸ hbelow)
  capped := fun hcap => hends.capped (count_settled h tS value rest ▸ hcap)

/-- A loop that is left at the cap has a sample too few. -/
theorem Ends.of_capped (h : p.Sound n) {tS : ℚ} {value : ℕ} (rest : List ℕ)
    (hcap : changeCap ≤ (p.noted tS value).changes.length) :
    Ends p (value :: rest) (.ok (p.noted tS value, n + 1)) where
  below := by
    intro hbelow
    rw [length_noted h] at hcap
    rw [changesFrom_cons] at hbelow
    omega
  capped := fun _ => ⟨_, _, rfl, by rw [samples_noted, h.counted]⟩

/-- A loop that is left by an exception ends as it should below the cap. -/
theorem Ends.of_error {values : List ℕ} (failure : Failure)
    (hbelow : p.changes.length + changesFrom p.lastValue values < changeCap) :
    Ends p values (.error failure) where
  below := fun _ last reads hended => by cases hended
  capped := fun hcap => absurd hcap (not_le.mpr hbelow)

/-- The loop at the end of the window. -/
theorem loop_over {fuel : ℕ} (hover : q.durationFrames ≤ p.frame) :
    q.loop w fuel n p = some (.ok (p, n)) := by
  rw [Query.loop.eq_def]
  exact if_neg (not_lt.mpr hover)

/-- The loop ends, soundly unless the changes of the window reach the cap. -/
theorem loop_ends (hinterval : 1 ≤ q.intervalFrames) {fuel : ℕ} (h : p.Sound n)
    (hfuel : q.durationFrames - p.frame ≤ fuel) :
    ∃ ended, q.loop w fuel n p = some ended ∧
      Ends p (q.valuesFrom w (q.passesFrom p.frame) n) ended := by
  -- the passes left in the window go down with the fuel, and may be over before it
  induction fuel generalizing n p with
  | zero =>
    have hover : q.durationFrames ≤ p.frame := by simpa using hfuel
    rw [passesFrom_of_le hinterval hover]
    exact ⟨_, loop_over hover, Ends.of_over h⟩
  | succ fuel ih =>
    by_cases hover : q.durationFrames ≤ p.frame
    · rw [passesFrom_of_le hinterval hover]
      exact ⟨_, loop_over hover, Ends.of_over h⟩
    · have hwithin := not_le.mp hover
      rw [Query.loop, if_pos hwithin, passesFrom_succ hinterval hwithin, Query.valuesFrom,
        Query.poll]
      cases hsample : q.sample w n with
      -- what is read after an exception does not count
      | error failure => exact ⟨_, rfl, Ends.of_error failure h.below⟩
      | ok value =>
        dsimp only
        rw [note_eq h]
        by_cases hcap : changeCap ≤ (p.noted (w.elapsed n) value).changes.length
        -- left before the value is taken over
        · rw [if_pos hcap]
          exact ⟨_, rfl, Ends.of_capped h _ hcap⟩
        · rw [if_neg hcap, Query.settle]
          have hbelow := not_le.mp hcap
          by_cases hwakes : w.wakes n = true
          · have hframe : (q.settled value (p.noted (w.elapsed n) value)).frame =
                p.frame + min q.intervalFrames (q.durationFrames - p.frame) := by
              simp [Query.settled]
            obtain ⟨ended, hloop, hends⟩ :=
              ih (h.settled (q := q) (w.elapsed n) value hbelow) (by rw [hframe]; omega)
            rw [hframe] at hends
            rw [if_pos hwakes, if_pos hwakes]
            exact ⟨ended, hloop, hends.cons h⟩
          · rw [if_neg hwakes, if_neg hwakes]
            refine ⟨_, rfl, Ends.of_error _ ?_⟩
            rw [← length_noted h (w.elapsed n)]
            exact hbelow

/-! ## Reports -/

/-- The checks let the arguments through. -/
def Query.Accepted (q : Query) : Prop :=
  q.durationFrames ≤ durationCap ∧ 1 ≤ q.intervalFrames ∧ q.intervalFrames ≤ q.durationFrames

theorem refusal_eq_none_iff : q.refusal = none ↔ q.Accepted := by
  unfold Query.refusal Query.Accepted
  split
  · simp only [reduceCtorEq, false_iff]; omega
  · split
    · simp only [reduceCtorEq, false_iff]; omega
    · split
      · simp only [reduceCtorEq, false_iff]; omega
      · simp only [true_iff]; omega

theorem Progress.sound_start : Progress.start.Sound 0 where
  linked := rfl
  counted := rfl
  below := by decide
  started := fun _ => ⟨rfl, rfl⟩

/-- How a watch ends that starts. -/
theorem watch_ends (h : q.Accepted) (hopens : w.opens = true) :
    ∃ ended, q.watch w = some (ended.map fun result => (q.report result.1, result.2)) ∧
      Ends Progress.start (q.window w) ended := by
  have hfuel : q.durationFrames - Progress.start.frame ≤ q.durationFrames.toNat := by
    have hstart : Progress.start.frame = 0 := rfl
    omega
  obtain ⟨ended, hloop, hends⟩ := loop_ends (w := w) h.2.1 Progress.sound_start hfuel
  refine ⟨ended, ?_, hends⟩
  rw [Query.watch, refusal_eq_none_iff.mpr h]
  dsimp only
  rw [if_pos hopens]
  exact congrArg (Option.map _) hloop

/-- How a watch ends that does not start. -/
theorem watch_refused (h : ¬ (q.Accepted ∧ w.opens = true)) :
    ∃ failure, q.watch w = some (.error failure) := by
  rw [Query.watch]
  cases hrefusal : q.refusal with
  | some message => exact ⟨_, rfl⟩
  | none =>
    have hopens : ¬ w.opens = true := fun hopens => h ⟨refusal_eq_none_iff.mp hrefusal, hopens⟩
    exact ⟨_, if_neg hopens⟩

/-- A watch ends, with a report or an exception. -/
theorem watch_isSome (q : Query) (w : World) : (q.watch w).isSome = true := by
  by_cases h : q.Accepted ∧ w.opens = true
  · obtain ⟨ended, hwatch, -⟩ := watch_ends h.1 h.2
    rw [hwatch]
    rfl
  · obtain ⟨failure, hwatch⟩ := watch_refused h
    rw [hwatch]
    rfl

/-- Every report is consistent exactly when a watch that starts has fewer than 64 changes in
its window. -/
theorem consistent_iff (q : Query) (w : World) :
    (∀ r reads, q.watch w = some (.ok (r, reads)) → r.Consistent reads) ↔
      (q.Accepted → w.opens = true → changesFrom none (q.window w) < changeCap) := by
  constructor
  -- at the cap the pass is left before its sample is counted
  · intro hall hq hopens
    by_contra hreached
    obtain ⟨ended, hwatch, hends⟩ := watch_ends hq hopens
    have hcap : changeCap ≤ Progress.start.changes.length +
        changesFrom Progress.start.lastValue (q.window w) := by
      simpa [Progress.start] using not_lt.mp hreached
    obtain ⟨last, reads, rfl, hmissing⟩ := hends.capped hcap
    have hcounted : last.samples = reads := (hall _ _ hwatch).counted
    omega
  · intro hfew r reads hreport
    by_cases h : q.Accepted ∧ w.opens = true
    · obtain ⟨ended, hwatch, hends⟩ := watch_ends h.1 h.2
      have hbelow : Progress.start.changes.length +
          changesFrom Progress.start.lastValue (q.window w) < changeCap := by
        simpa [Progress.start] using hfew h.1 h.2
      rw [hwatch] at hreport
      cases ended with
      | error failure => cases hreport
      | ok result =>
        cases hreport
        have hsound := hends.below hbelow result.1 result.2 rfl
        exact ⟨hsound.linked, hsound.counted⟩
    · obtain ⟨failure, hwatch⟩ := watch_refused h
      rw [hwatch] at hreport
      cases hreport

/-! ## A counter -/

/-- Every second frame of five seconds. -/
def counterQuery : Query := ⟨0x08A0D000, .u8, 1, 65⟩

/-- A byte that counts the reads. -/
def counterWorld : World where
  opens := true
  read n := some [UInt8.ofNat n]
  elapsed n := n / 60
  wakes _ := true

/-- The counter changes with each of the 65 reads but the first. -/
theorem changes_counter : changesFrom none (counterQuery.window counterWorld) = 64 := by
  decide +kernel

/-- The report on the counter has a sample too few. -/
theorem not_consistent_counter :
    ¬ ∀ (q : Query) (w : World) (r : Report) (reads : ℕ),
      q.watch w = some (.ok (r, reads)) → r.Consistent reads := by
  intro hall
  have haccepted : counterQuery.Accepted := by
    unfold Query.Accepted
    decide
  obtain ⟨ended, hwatch, hends⟩ := watch_ends (w := counterWorld) haccepted rfl
  obtain ⟨last, reads, rfl, hmissing⟩ := hends.capped (changes_counter ▸ (le_refl changeCap))
  have hcounted : last.samples = reads := (hall _ _ _ reads hwatch).counted
  omega

end Watch
