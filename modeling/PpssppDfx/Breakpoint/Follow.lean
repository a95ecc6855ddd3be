import Mathlib.Tactic.SplitIfs
import PpssppDfx.Breakpoint.Tool

/-!
# Whether conditions follow their breakpoints

The registry has one condition for an address, but a CPU breakpoint and watchpoints of
several sizes may be armed there. An action on one of them overwrites or drops the condition
of the others.

## Main results

* `follows_of_reaches` — conditions follow their breakpoints in runs where an action leaves
  the other breakpoints at its address the condition that they have
* `condition_dropped` — a run in which a watchpoint takes the condition of a CPU breakpoint
-/

set_option autoImplicit false

namespace Breakpoint

open Semantics Function

/-- The condition that a command leaves at its address: the outer `none` if it leaves the
registry as it is. -/
def Command.leaves (command : Command) (condition : Option String) : Option (Option String) :=
  match command with
  | .cpuAdd .. | .memAdd .. => some (truthy condition)
  | .cpuRemove .. | .memRemove .. => some none
  | .cpuUpdate .. | .memUpdate .. => condition.map fun c => truthy (some c)

/-- The registry enforces for every armed breakpoint the condition that it was last given,
and none where no breakpoint is armed. -/
structure Follows (sessionId : String) (s : Managed) : Prop where
  armed : ∀ target c, s.given target = some c →
    (s.filters.get sessionId target.address).map (·.condition) = c
  disarmed : ∀ address, (∀ target : Target, target.address = address → s.given target = none) →
    s.filters.get sessionId address = none

/-- A command that succeeds leaves at its address the condition that every other breakpoint
armed there was last given. -/
def Agrees (sessionId : String) (s : Managed) (e : Managing) : Prop :=
  ∀ command, (breakpoint sessionId s.filters e.call e.answers).command = some (command, true) →
    ∀ left, command.leaves e.call.condition = some left →
      ∀ other : Target, other ≠ command.target → other.address = command.target.address →
        ∀ c, s.given other = some c → c = left

section Follow

variable {sessionId : String} {f : Filters} {q : Call} {a : Answers} {address : ℤ} {s t : Managed}

/-! ## The registry -/

/-- The registry after a command that leaves a condition. -/
def Filters.leave (f : Filters) (sessionId : String) (address : ℤ) :
    Option (Option String) → Filters
  | none => f
  | some none => f.drop sessionId address
  | some (some c) => f.register sessionId address c

theorem get_leave (f : Filters) (left : Option String) :
    ((f.leave sessionId address (some left)).get sessionId address).map (·.condition) = left := by
  cases left with
  | none => simp [Filters.leave, Filters.get, Filters.drop]
  | some c => simp [Filters.leave, Filters.get, Filters.register]

theorem get_leave_of_ne {other : ℤ} (h : other ≠ address) (left : Option (Option String)) :
    (f.leave sessionId address left).get sessionId other = f.get sessionId other := by
  have hkey : (sessionId, other) ≠ (sessionId, address) := fun heq => h (Prod.mk.inj heq).2
  cases left with
  | none => rfl
  | some left =>
    cases left with
    | none => simp [Filters.leave, Filters.get, Filters.drop, update_of_ne hkey]
    | some c => simp [Filters.leave, Filters.get, Filters.register, update_of_ne hkey]

theorem set_eq_leave (f : Filters) (condition : Option String) :
    f.set sessionId address condition = f.leave sessionId address (some (truthy condition)) := by
  unfold Filters.set
  cases truthy condition <;> rfl

theorem revise_eq_leave (f : Filters) (condition : Option String) :
    f.revise sessionId address condition =
      f.leave sessionId address (condition.map fun c => truthy (some c)) := by
  cases condition with
  | none => rfl
  | some c =>
    rw [Filters.revise, Filters.set, Option.map_some]
    cases truthy (some c) with
    | none => simp [Filters.leave, Filters.drop]
    | some c => simp [Filters.leave, Filters.drop, Filters.register]

/-! ## One call -/

/-- What a call does to the registry: it leaves the condition of a command that succeeded,
and otherwise changes nothing. -/
def Outcome.Leaves (o : Outcome) (sessionId : String) (f : Filters) (q : Call) : Prop :=
  match o.command with
  | some (command, true) =>
    o.filters = f.leave sessionId command.target.address (command.leaves q.condition)
  | _ => o.filters = f

theorem leaves_send {command : Command} {filters : Filters} {enabled : List Listed → Option Bool}
    (h : filters = f.leave sessionId command.target.address (command.leaves q.condition)) :
    (q.send f a command filters enabled).Leaves sessionId f q := by
  unfold Call.send Outcome.Leaves
  split_ifs
  · exact h
  · rfl

theorem leaves_withMemBp {next : Listed → Outcome}
    (h : ∀ existing, (next existing).Leaves sessionId f q) :
    (q.withMemBp f a next).Leaves sessionId f q := by
  unfold Call.withMemBp
  split
  · rfl
  · split
    · rfl
    · exact h _

/-- Every action does to the registry what its command says. -/
theorem leaves_breakpoint : (breakpoint sessionId f q a).Leaves sessionId f q := by
  unfold breakpoint
  split_ifs
  · rfl
  · rfl
  · cases q.action with
    | set => exact leaves_send (set_eq_leave f q.condition)
    | remove =>
      dsimp only [Call.remove]
      split
      · rfl
      · split_ifs
        · exact leaves_send rfl
        · rfl
    | list => rfl
    | update => exact leaves_send (revise_eq_leave f q.condition)
    | memSet => exact leaves_send (set_eq_leave f q.condition)
    | memRemove => exact leaves_withMemBp fun existing => leaves_send rfl
    | memList => rfl
    | memUpdate =>
      exact leaves_withMemBp fun existing => leaves_send (revise_eq_leave f q.condition)

/-! ## What was given -/

/-- A command gives a condition to its target only. -/
theorem after_of_ne {given : Given} {command : Command} {condition : Option String}
    {target : Target} (h : target ≠ command.target) :
    given.after command condition target = given target := by
  cases command with
  | cpuAdd | memAdd | cpuRemove | memRemove => exact update_of_ne h _ _
  | cpuUpdate | memUpdate =>
    cases condition with
    | none => rfl
    | some c => exact update_of_ne h _ _

/-- A command that leaves the registry as it is gives no condition. -/
theorem after_of_leaves_none {given : Given} {command : Command} {condition : Option String}
    (h : command.leaves condition = none) : given.after command condition = given := by
  cases command with
  | cpuAdd | memAdd | cpuRemove | memRemove => exact nomatch h
  | cpuUpdate | memUpdate =>
    cases condition with
    | none => rfl
    | some c => exact nomatch h

/-- The condition that the target is given is the one left in the registry. -/
theorem left_of_after {given : Given} {command : Command} {condition left c : Option String}
    (hleft : command.leaves condition = some left)
    (h : given.after command condition command.target = some c) : c = left := by
  cases command with
  | cpuAdd | memAdd =>
    rw [Given.after, update_self] at h
    exact (Option.some.inj h).symm.trans (Option.some.inj hleft)
  | cpuRemove | memRemove =>
    rw [Given.after, update_self] at h
    exact nomatch h
  | cpuUpdate | memUpdate =>
    cases condition with
    | none => exact nomatch hleft
    | some condition =>
      rw [Given.after, update_self] at h
      exact (Option.some.inj h).symm.trans (Option.some.inj hleft)

/-- A target that is left without a condition of its own was removed. -/
theorem left_none_of_after {given : Given} {command : Command} {condition left : Option String}
    (hleft : command.leaves condition = some left)
    (h : given.after command condition command.target = none) : left = none := by
  cases command with
  | cpuAdd | memAdd =>
    rw [Given.after, update_self] at h
    exact nomatch h
  | cpuRemove | memRemove => exact (Option.some.inj hleft).symm
  | cpuUpdate | memUpdate =>
    cases condition with
    | none => exact nomatch hleft
    | some condition =>
      rw [Given.after, update_self] at h
      exact nomatch h

/-! ## Runs -/

/-- A command that succeeds keeps conditions with their breakpoints, if it agrees with the
others at its address. -/
theorem Follows.after (h : Follows sessionId s) {command : Command} {condition : Option String}
    (hagrees : ∀ left, command.leaves condition = some left →
      ∀ other : Target, other ≠ command.target → other.address = command.target.address →
        ∀ c, s.given other = some c → c = left) :
    Follows sessionId
      ⟨s.filters.leave sessionId command.target.address (command.leaves condition),
        s.given.after command condition⟩ := by
  cases hleaves : command.leaves condition with
  | none =>
    rw [after_of_leaves_none hleaves]
    exact h
  | some left =>
    constructor
    · intro target c hgiven
      dsimp only at hgiven ⊢
      by_cases haddress : target.address = command.target.address
      · rw [haddress, get_leave]
        by_cases htarget : target = command.target
        · subst htarget
          exact (left_of_after hleaves hgiven).symm
        -- another breakpoint at the address of the command: here the condition is needed
        · rw [after_of_ne htarget] at hgiven
          exact (hagrees left hleaves target htarget haddress c hgiven).symm
      · have htarget : target ≠ command.target := fun heq => haddress (congrArg _ heq)
        rw [after_of_ne htarget] at hgiven
        rw [get_leave_of_ne haddress]
        exact h.armed target c hgiven
    · intro address hnone
      by_cases haddress : address = command.target.address
      · subst haddress
        obtain rfl := left_none_of_after hleaves (hnone command.target rfl)
        simp [Filters.leave, Filters.get, Filters.drop]
      · rw [get_leave_of_ne haddress]
        refine h.disarmed address fun target htarget => ?_
        have hne : target ≠ command.target := fun heq => haddress (heq ▸ htarget.symm)
        exact (after_of_ne hne).symm.trans (hnone target htarget)

theorem Follows.step {e : Managing} (h : Follows sessionId s) (hok : Agrees sessionId s e)
    (hstep : (managing sessionId).step s e = some t) : Follows sessionId t := by
  obtain rfl := Option.some.inj hstep
  have hleaves : (breakpoint sessionId s.filters e.call e.answers).Leaves sessionId s.filters
      e.call := leaves_breakpoint
  unfold Outcome.Leaves at hleaves
  cases hcommand : (breakpoint sessionId s.filters e.call e.answers).command with
  | none =>
    rw [hcommand] at hleaves
    dsimp only at hleaves ⊢
    rw [hleaves]
    exact h
  | some sent =>
    obtain ⟨command, succeeded⟩ := sent
    rw [hcommand] at hleaves
    cases succeeded with
    | false =>
      dsimp only at hleaves ⊢
      rw [hleaves]
      exact h
    | true =>
      dsimp only at hleaves ⊢
      rw [hleaves]
      exact h.after (hok command hcommand)

theorem follows_fresh (sessionId : String) : Follows sessionId .fresh :=
  ⟨fun _ _ hc => (nomatch hc), fun _ _ => rfl⟩

/-- In every run in which a command leaves the other breakpoints at its address the
condition that they have, the registry enforces for every breakpoint the condition that it
was last given. -/
theorem follows_of_reaches (h : (managing sessionId).Reaches (Agrees sessionId) .fresh s) :
    Follows sessionId s :=
  h.invariant (follows_fresh sessionId) fun _ _ _ hinv hok hstep => hinv.step hok hstep

end Follow

/-- A call at one address, to which the emulator lists nothing. -/
def callAt (action : Action) (condition : Option String) : Managing :=
  ⟨⟨action, 0x08804000, 4, none, none, none, none, condition, none⟩, ⟨some [], true, some []⟩⟩

/-- A CPU breakpoint and a watchpoint at one address, armed with the same condition. -/
theorem follows_pair :
    ∃ s, (managing "psp-1").run .fresh
        [callAt .set (some "s1 == 5"), callAt .memSet (some "s1 == 5")] = some s ∧
      s.given (.cpu 0x08804000) = some (some "s1 == 5") ∧
      s.given (.mem 0x08804000 4) = some (some "s1 == 5") ∧ Follows "psp-1" s := by
  obtain ⟨s, hs⟩ : ∃ s, (managing "psp-1").step .fresh (callAt .set (some "s1 == 5")) = some s :=
    ⟨_, rfl⟩
  have hfirst : Agrees "psp-1" .fresh (callAt .set (some "s1 == 5")) :=
    fun _ _ _ _ _ _ _ _ hc => nomatch hc
  have hgiven : s.given =
      Function.update (fun _ => none : Given) (.cpu 0x08804000) (some (some "s1 == 5")) := by
    rw [← Option.some.inj hs]
    rfl
  -- the only other breakpoint at the address has the condition that the watchpoint is given
  have hsecond : Agrees "psp-1" s (callAt .memSet (some "s1 == 5")) := by
    intro command hcommand left hleft other hne haddress c hc
    obtain rfl := (Prod.mk.inj (Option.some.inj hcommand)).1
    rw [hgiven] at hc
    by_cases hcpu : other = .cpu 0x08804000
    · rw [hcpu, Function.update_self] at hc
      exact (Option.some.inj hc).symm.trans (Option.some.inj hleft)
    · rw [Function.update_of_ne hcpu] at hc
      cases hc
  have hrun : (managing "psp-1").Reaches (Agrees "psp-1") .fresh _ :=
    .tail (.single hfirst hs) hsecond rfl
  refine ⟨_, ?_, ?_, ?_, follows_of_reaches hrun⟩
  · rw [Machine.run_cons, hs]
    rfl
  · rw [← Option.some.inj hs]
    rfl
  · rw [← Option.some.inj hs]
    rfl

/-- A watchpoint without a condition drops the condition of the CPU breakpoint at its
address. -/
theorem condition_dropped :
    ∃ s, (managing "psp-1").Reachable .fresh s ∧ ¬ Follows "psp-1" s := by
  have hrun : (managing "psp-1").run .fresh
      [callAt .set (some "s1 == 5"), callAt .memSet none] = some _ := rfl
  refine ⟨_, Machine.reachable_of_run _ hrun, fun hfollows => ?_⟩
  have hgiven := hfollows.armed (.cpu 0x08804000) (some "s1 == 5") rfl
  exact absurd hgiven (by decide)

end Breakpoint
