import PpssppDfx.Breakpoint.Trace

/-!
# What a trace leaves behind

A call that ends has to leave the watchpoints and the run state of the emulator as it found
them. The machine shows where it does not: the watchpoint that it sets replaces one of the
user at the same address and size, its removal takes whatever is listed at the address, and
a cancellation after a hit leaves the CPU paused.

## Main results

* `restored_of_reaches` — runs without these restore both, once the removal is over
* `transparent_of_reaches` — and on exit, when no cancellation interrupts the removal
* `watchpoint_of_user_lost` — a call that removes the watchpoint of the user
-/

set_option autoImplicit false

namespace Breakpoint

open Semantics

section Transparent

variable {q : TraceRequest} {old : MemTable} {ran : Bool} {s t : Trace}

/-- On exit, the watchpoints and the run state are those before the call. -/
def Transparent (old : MemTable) (ran : Bool) (s : Trace) : Prop :=
  ∀ ending, s.phase = .exited ending → s.table = old ∧ s.running = ran

/-- The address hosts no watchpoint when the call sets its own, the CPU stops only while the
call waits for that, a stop is met by a call that goes on until the CPU runs again, and the
emulator carries out or refuses a command as it says. -/
def Orderly (q : TraceRequest) (s : Trace) : TraceLabel → Prop
  | .stop _ =>
    match s.phase with
    | .arming | .leaving | .waiting => True
    | _ => False
  | .take => True
  | .timesOut => s.unread = []
  | .await .ok =>
    match s.phase with
    | .arming => s.table.findAt q.address = none
    | _ => True
  | .await (.raises applied) =>
    match s.phase with
    | .arming => applied = false ∧ s.unread = []
    | .leaving | .waiting => s.unread = []
    | .recovering => (s.suffer q applied).running = true
    | .cleaning _ _ => (s.suffer q applied).table.findAt q.address = none
    | _ => True
  | .await (.cancelled applied) =>
    match s.phase with
    | .arming => applied = false ∧ s.unread = []
    | .leaving | .waiting => s.unread = []
    | .enteringHit _ | .capturing _ | .listing _ | .removing _ _ | .verifying _ | .resuming _ _
    | .recovering => (s.suffer q applied).running = true
    | _ => True
  | .background (.raises applied) =>
    ∀ p ∈ s.background,
      (if applied then p.applied q.address s.table else s.table).findAt q.address = none
  | .background _ => True

/-- The removal at the end is not cancelled while the watchpoint is listed. -/
def Prompt (q : TraceRequest) (s : Trace) : TraceLabel → Prop
  | .await (.cancelled _) =>
    match s.phase with
    | .cleaning _ _ => s.table.findAt q.address = none
    | _ => True
  | _ => True

instance (q : TraceRequest) (s : Trace) (e : TraceLabel) : Decidable (Orderly q s e) := by
  unfold Orderly
  split <;> try split
  all_goals infer_instance

instance (q : TraceRequest) (s : Trace) (e : TraceLabel) : Decidable (Prompt q s e) := by
  unfold Prompt
  split <;> try split
  all_goals infer_instance

/-! ## The invariant -/

/-- The removal still takes the watchpoint of this size. -/
def QuietPhase.Removes (size : ℤ) : QuietPhase → Prop
  | .removing found => found = size
  | .verifying => False
  | _ => True

/-- The call is inside its `try` clause. -/
def TracePhase.Live : TracePhase → Prop
  | .cleaning _ _ | .exited _ => False
  | _ => True

/-- The watchpoint of the call will still be removed. -/
def Trace.Pending (q : TraceRequest) (s : Trace) : Prop :=
  match s.phase with
  | .cleaning p _ => p.Removes q.size
  | .exited _ => ∃ p ∈ s.background, p.Removes q.size
  | _ => s.armed = true

/-- The CPU runs as before the call, or the call is going to resume it. -/
def Trace.Cpu (ran : Bool) (s : Trace) : Prop :=
  match s.phase with
  | .entering | .probing | .leavingPaused =>
    s.running = ran ∧ s.needsResume = false ∧ s.armed = false
  | .arming => ran = true ∧ (s.running = true ∨ s.unread ≠ []) ∧ s.armed = false
  | .leaving | .waiting => ran = true ∧ (s.running = true ∨ s.unread ≠ []) ∧ s.armed = true
  | .timedOut _ | .cleaning _ _ => ran = true ∧ s.running = true ∧ s.armed = true
  | .enteringHit _ | .capturing _ | .listing _ | .removing _ _ | .verifying _ =>
    ran = true ∧ s.needsResume = true ∧ s.armed = true
  | .resuming _ _ => ran = true ∧ s.needsResume = true
  | .leavingHit _ _ => ran = true ∧ s.running = true
  | .recovering => ran = true
  | .exited _ => s.running = ran

structure TraceInv (q : TraceRequest) (old : MemTable) (ran : Bool) (s : Trace) : Prop where
  table : s.table = old ∨ s.table = old ++ [q.watch] ∧ s.Pending q
  fresh : s.armed = true → old.findAt q.address = none
  cpu : s.Cpu ran
  background : s.background.isSome = true →
    s.armed = true ∧ ∃ ending, s.phase = .exited ending

theorem Trace.pending_of_live (h : s.phase.Live) : s.Pending q ↔ s.armed = true := by
  unfold Trace.Pending
  split
  · rename_i hphase
    rw [hphase] at h
    exact h.elim
  · rename_i hphase
    rw [hphase] at h
    exact h.elim
  · exact Iff.rfl

namespace TraceInv

theorem table_of_live (h : TraceInv q old ran s) (hlive : s.phase.Live) :
    s.table = old ∨ s.table = old ++ [q.watch] ∧ s.armed = true := by
  rw [← Trace.pending_of_live (q := q) hlive]
  exact h.table

theorem background_eq_none (h : TraceInv q old ran s)
    (hphase : ∀ ending, s.phase ≠ .exited ending) : s.background = none := by
  rcases hbackground : s.background with _ | p
  · rfl
  · obtain ⟨-, ending, hexited⟩ := h.background (by rw [hbackground]; rfl)
    exact absurd hexited (hphase ending)

theorem background_of_live (h : TraceInv q old ran s) (hlive : s.phase.Live) :
    s.background = none :=
  h.background_eq_none fun ending hexited => by
    rw [hexited] at hlive
    exact hlive

/-- A state of a call inside its `try` clause. -/
theorem of_live (hlive : s.phase.Live)
    (htable : s.table = old ∨ s.table = old ++ [q.watch] ∧ s.armed = true)
    (hfresh : s.armed = true → old.findAt q.address = none) (hcpu : s.Cpu ran)
    (hbackground : s.background = none) : TraceInv q old ran s where
  table := by
    rw [Trace.pending_of_live hlive]
    exact htable
  fresh := hfresh
  cpu := hcpu
  background hsome := by
    rw [hbackground] at hsome
    exact nomatch hsome

/-- The `finally` clause. -/
theorem finish {ending : TraceEnding}
    (htable : s.table = old ∨ s.table = old ++ [q.watch] ∧ s.armed = true)
    (hfresh : s.armed = true → old.findAt q.address = none) (hrun : s.running = ran)
    (hran : s.armed = true → ran = true) (hbackground : s.background = none) :
    TraceInv q old ran (s.finish ending) := by
  have hnone : s.background.isSome ≠ true := by simp [hbackground]
  by_cases harmed : s.armed = true
  · have heq : s.finish ending = { s with phase := .cleaning .entering ending } := if_pos harmed
    rw [heq]
    refine ⟨htable.imp id (And.imp id fun _ => trivial), hfresh, ?_, fun h => absurd h hnone⟩
    exact ⟨hran harmed, hrun.trans (hran harmed), harmed⟩
  · have heq : s.finish ending = { s with phase := .exited ending } := if_neg harmed
    rw [heq]
    refine ⟨htable.imp id fun h => absurd h.2 harmed, hfresh, hrun, fun h => absurd h hnone⟩

end TraceInv

/-! ## The removal -/

theorem table_removed {found : MemTable} (size : ℤ) (hfresh : old.findAt q.address = none)
    (htable : found = old ∨ found = old ++ [q.watch]) :
    found.remove q.address size = old ∨ found.remove q.address size = old ++ [q.watch] := by
  rcases htable with rfl | rfl
  · exact Or.inl (MemTable.remove_of_findAt_none hfresh)
  · exact MemTable.remove_append_or hfresh

theorem QuietPhase.applied_table {found : MemTable} (p : QuietPhase)
    (hfresh : old.findAt q.address = none) (htable : found = old ∨ found = old ++ [q.watch]) :
    p.applied q.address found = old ∨ p.applied q.address found = old ++ [q.watch] := by
  cases p with
  | removing size => exact table_removed size hfresh htable
  | entering => exact htable
  | listing => exact htable
  | verifying => exact htable

/-- A removal that goes on still takes the watchpoint, and one that is over has taken it. -/
theorem QuietPhase.next_table {found : MemTable} {p : QuietPhase}
    (hfresh : old.findAt q.address = none)
    (htable : found = old ∨ found = old ++ [q.watch] ∧ p.Removes q.size) :
    match p.next q.address (p.applied q.address found) with
    | .inl p' => p.applied q.address found = old ∨
        p.applied q.address found = old ++ [q.watch] ∧ p'.Removes q.size
    | .inr _ => p.applied q.address found = old := by
  cases p with
  | entering => exact htable.imp id (And.imp id fun _ => trivial)
  | listing =>
    rcases htable with rfl | ⟨rfl, -⟩
    · simp [next, applied, hfresh]
    · have hfound : (old ++ [q.watch]).findAt q.address = some q.watch :=
        MemTable.findAt_append hfresh
      simp [next, applied, hfound, Removes]
  | removing size =>
    rcases htable with rfl | ⟨rfl, hsize⟩
    · exact Or.inl (MemTable.remove_of_findAt_none hfresh)
    · obtain rfl : size = q.size := hsize
      exact Or.inl (MemTable.remove_append (m := q.watch) hfresh)
  | verifying =>
    rcases htable with rfl | ⟨-, hremoves⟩
    · rfl
    · exact hremoves.elim

/-- A table that does not list the address is the old one. -/
theorem eq_old_of_findAt {found : MemTable} (hfresh : old.findAt q.address = none)
    (htable : found = old ∨ found = old ++ [q.watch]) (hnone : found.findAt q.address = none) :
    found = old := by
  rcases htable with rfl | rfl
  · rfl
  · have hfound : (old ++ [q.watch]).findAt q.address = some q.watch :=
      MemTable.findAt_append hfresh
    rw [hfound] at hnone
    exact nomatch hnone

/-! ## Steps -/

namespace TraceInv

/-- The call moves on inside its `try` clause, and touches no watchpoint. -/
theorem move (h : TraceInv q old ran s) (hphase : s.phase.Live) (hlive : t.phase.Live)
    (htable : t.table = s.table) (harmed : t.armed = s.armed)
    (hbackground : t.background = s.background) (hcpu : t.Cpu ran) : TraceInv q old ran t := by
  refine .of_live hlive ?_ ?_ hcpu (hbackground.trans (h.background_of_live hphase))
  · rw [htable, harmed]
    exact h.table_of_live hphase
  · rw [harmed]
    exact h.fresh

/-- The call leaves its `try` clause. -/
theorem leave (h : TraceInv q old ran s) (hphase : s.phase.Live) (hrun : s.running = ran)
    (hran : s.armed = true → ran = true) {ending : TraceEnding} :
    TraceInv q old ran (s.finish ending) :=
  finish (h.table_of_live hphase) h.fresh hrun hran (h.background_of_live hphase)

theorem stop (h : TraceInv q old ran s) {m : Stop} (hok : Orderly q s (.stop m)) :
    TraceInv q old ran { s with running := false, unread := s.unread ++ [m] } := by
  have hunread : s.unread ++ [m] ≠ [] := by simp
  have hcpu := h.cpu
  cases hphase : s.phase <;> simp only [Orderly, hphase] at hok
  all_goals
    simp only [Trace.Cpu, hphase] at hcpu
    refine h.move (by rw [hphase]; trivial) (by trivial) rfl rfl rfl ?_
    exact ⟨hcpu.1, Or.inr hunread, hcpu.2.2⟩

theorem take (h : TraceInv q old ran s) (hphase : s.phase = .waiting) {m : Stop}
    {unread : List Stop} : TraceInv q old ran
      { s with unread := unread, phase := .enteringHit m, needsResume := true } := by
  have hcpu := h.cpu
  simp only [Trace.Cpu, hphase] at hcpu
  exact h.move (by rw [hphase]; trivial) trivial rfl rfl rfl ⟨hcpu.1, rfl, hcpu.2.2⟩

theorem timesOut (h : TraceInv q old ran s) (hphase : s.phase = .waiting)
    (hunread : s.unread = []) :
    TraceInv q old ran { s with phase := .timedOut .entering } := by
  have hcpu := h.cpu
  simp only [Trace.Cpu, hphase] at hcpu
  have hrunning : s.running = true := hcpu.2.1.resolve_right fun hne => hne hunread
  exact h.move (by rw [hphase]; trivial) trivial rfl rfl rfl ⟨hcpu.1, hrunning, hcpu.2.2⟩

/-- The watchpoint stands behind those that were there. -/
theorem arms (h : TraceInv q old ran s) (hphase : s.phase = .arming)
    (hfresh : s.table.findAt q.address = none) :
    TraceInv q old ran { s with table := s.table.add q.watch, armed := true, phase := .leaving } := by
  have hcpu := h.cpu
  simp only [Trace.Cpu, hphase] at hcpu
  have hlive : s.phase.Live := by rw [hphase]; trivial
  have htable : s.table = old := by
    rcases h.table_of_live hlive with htable | ⟨-, harmed⟩
    · exact htable
    · simp [hcpu.2.2] at harmed
  rw [htable] at hfresh
  have hadd : s.table.add q.watch = old ++ [q.watch] := by
    rw [htable]
    exact MemTable.add_of_findAt_none (m := q.watch) hfresh
  exact of_live trivial (Or.inr ⟨hadd, rfl⟩) (fun _ => hfresh) ⟨hcpu.1, hcpu.2.1, rfl⟩
    (h.background_of_live hlive)

/-- The removal after a timeout goes on, or the call ends with it. -/
theorem proceed_timedOut {p : QuietPhase} (h : TraceInv q old ran s)
    (hphase : s.phase = .timedOut p) (hstep : (s.effect q).proceed q = some t) :
    TraceInv q old ran t := by
  have hcpu := h.cpu
  simp only [Trace.Cpu, hphase] at hcpu
  simp only [Trace.effect, hphase, Trace.proceed] at hstep
  obtain ⟨hran, hrun, harmed⟩ := hcpu
  have hfresh := h.fresh harmed
  have hlive : s.phase.Live := by rw [hphase]; trivial
  have htable := p.applied_table hfresh ((h.table_of_live hlive).imp id And.left)
  split at hstep
  · obtain rfl := Option.some.inj hstep
    exact of_live trivial (htable.imp id fun h => ⟨h, harmed⟩) h.fresh ⟨hran, hrun, harmed⟩
      (h.background_of_live hlive)
  · rename_i removed hnext
    obtain rfl := Option.some.inj hstep
    refine finish ?_ (fun _ => hfresh) (hrun.trans hran.symm) (fun _ => hran)
      (h.background_of_live hlive)
    rcases htable with htable | htable
    · exact Or.inl htable
    · refine Or.inr ⟨htable, ?_⟩
      have hfound : (old ++ [q.watch]).findAt q.address = some q.watch :=
        MemTable.findAt_append hfresh
      -- The address is still listed, so the removal has not been reported.
      cases p <;> simp_all [QuietPhase.next, QuietPhase.applied]

/-- The removal at the end of the call goes on, or has taken the watchpoint. -/
theorem proceed_cleaning {p : QuietPhase} {ending : TraceEnding} (h : TraceInv q old ran s)
    (hphase : s.phase = .cleaning p ending) (hstep : (s.effect q).proceed q = some t) :
    TraceInv q old ran t := by
  have hcpu := h.cpu
  simp only [Trace.Cpu, hphase] at hcpu
  simp only [Trace.effect, hphase, Trace.proceed] at hstep
  obtain ⟨hran, hrun, harmed⟩ := hcpu
  have hfresh := h.fresh harmed
  have htable : s.table = old ∨ s.table = old ++ [q.watch] ∧ p.Removes q.size := by
    have htable := h.table
    simp only [Trace.Pending, hphase] at htable
    exact htable
  have hnext := QuietPhase.next_table hfresh htable
  have hnone : s.background.isSome ≠ true := by
    simp [h.background_eq_none fun ending hexited => by simp [hphase] at hexited]
  split at hstep
  · rename_i p' hp'
    obtain rfl := Option.some.inj hstep
    rw [hp'] at hnext
    exact ⟨hnext, h.fresh, ⟨hran, hrun, harmed⟩, fun h => absurd h hnone⟩
  · rename_i hp'
    obtain rfl := Option.some.inj hstep
    rw [hp'] at hnext
    exact ⟨Or.inl hnext, h.fresh, hrun.trans hran.symm, fun h => absurd h hnone⟩

/-- The await succeeds. -/
theorem proceed (h : TraceInv q old ran s) (hok : Orderly q s (.await .ok))
    (hstep : (s.effect q).proceed q = some t) : TraceInv q old ran t := by
  have hcpu := h.cpu
  cases hphase : s.phase
  case timedOut p => exact h.proceed_timedOut hphase hstep
  case cleaning p ending => exact h.proceed_cleaning hphase hstep
  all_goals
    simp only [Orderly, hphase] at hok
    simp only [Trace.Cpu, hphase] at hcpu
    simp only [Trace.effect, hphase, Trace.proceed] at hstep
  case waiting | exited => cases hstep
  all_goals have hlive : s.phase.Live := by rw [hphase]; trivial
  -- these awaits touch neither the table nor the CPU
  case entering | leaving | enteringHit | capturing =>
    obtain rfl := Option.some.inj hstep
    exact h.move hlive trivial rfl rfl rfl hcpu
  case listing m =>
    split at hstep
    all_goals
      obtain rfl := Option.some.inj hstep
      exact h.move hlive trivial rfl rfl rfl hcpu
  case probing =>
    obtain rfl := Option.some.inj hstep
    obtain ⟨hrun, hresume, harmed⟩ := hcpu
    by_cases hrunning : s.running = true
    · rw [if_pos hrunning]
      exact h.move hlive trivial rfl rfl rfl ⟨hrun.symm.trans hrunning, Or.inl hrunning, harmed⟩
    · rw [if_neg hrunning]
      exact h.move hlive trivial rfl rfl rfl ⟨hrun, hresume, harmed⟩
  case leavingPaused =>
    obtain rfl := Option.some.inj hstep
    exact h.leave hlive hcpu.1 fun harmed => by simp [hcpu.2.2] at harmed
  case arming =>
    obtain rfl := Option.some.inj hstep
    exact h.arms hphase hok
  case removing m size =>
    obtain rfl := Option.some.inj hstep
    obtain ⟨hran, hresume, harmed⟩ := hcpu
    have htable := table_removed size (h.fresh harmed)
      ((h.table_of_live hlive).imp id And.left)
    exact of_live trivial (htable.imp id fun h => ⟨h, harmed⟩) h.fresh ⟨hran, hresume, harmed⟩
      (h.background_of_live hlive)
  case verifying m =>
    obtain rfl := Option.some.inj hstep
    obtain ⟨hran, hresume, harmed⟩ := hcpu
    refine of_live trivial ?_ (fun _ => h.fresh harmed) ⟨hran, hresume⟩
      (h.background_of_live hlive)
    -- a watchpoint that is still listed was not removed
    rcases h.table_of_live hlive with htable | ⟨htable, -⟩
    · exact Or.inl htable
    · have hfound : (old ++ [q.watch]).findAt q.address = some q.watch :=
        MemTable.findAt_append (h.fresh harmed)
      exact Or.inr ⟨htable, by simp [htable, hfound, harmed]⟩
  case resuming m removed =>
    obtain rfl := Option.some.inj hstep
    exact h.move hlive trivial rfl rfl rfl ⟨hcpu.1, rfl⟩
  case leavingHit m removed =>
    obtain rfl := Option.some.inj hstep
    exact h.leave hlive (hcpu.2.trans hcpu.1.symm) fun _ => hcpu.1
  case recovering =>
    obtain rfl := Option.some.inj hstep
    exact finish (h.table_of_live hlive) h.fresh hcpu.symm (fun _ => hcpu)
      (h.background_of_live hlive)

/-- An await that fails leaves the watchpoint where it was, or has removed it. -/
theorem suffer_table {applied : Bool} (h : TraceInv q old ran s) (hphase : s.phase.Live)
    (harming : s.phase = .arming → applied = false) :
    (s.suffer q applied).table = old ∨
      (s.suffer q applied).table = old ++ [q.watch] ∧ (s.suffer q applied).armed = true := by
  have htable := h.table_of_live hphase
  cases applied with
  | false => exact htable
  | true =>
    have hcpu := h.cpu
    cases heq : s.phase
    case arming => exact absurd (harming heq) (by decide)
    case timedOut p =>
      simp only [Trace.Cpu, heq] at hcpu
      obtain ⟨-, -, harmed⟩ := hcpu
      have hremoved := p.applied_table (h.fresh harmed) (htable.imp id And.left)
      simp only [Trace.suffer, Trace.effect, heq, if_true]
      exact hremoved.imp id fun h => ⟨h, harmed⟩
    case removing m size =>
      simp only [Trace.Cpu, heq] at hcpu
      obtain ⟨-, -, harmed⟩ := hcpu
      have hremoved := table_removed size (h.fresh harmed) (htable.imp id And.left)
      simp only [Trace.suffer, Trace.effect, heq, if_true]
      exact hremoved.imp id fun h => ⟨h, harmed⟩
    case cleaning p ending =>
      rw [heq] at hphase
      exact hphase.elim
    all_goals
      simp only [Trace.suffer, Trace.effect, heq, if_true]
      exact htable

/-- The handler of the error resumes the CPU. -/
theorem recover {applied : Bool} (h : TraceInv q old ran s) (hphase : s.phase.Live)
    (harming : s.phase = .arming → applied = false) (hran : ran = true) :
    TraceInv q old ran { s.suffer q applied with phase := .recovering } := by
  refine of_live trivial (h.suffer_table hphase harming) ?_ hran ?_
  · rw [Trace.suffer_armed]
    exact h.fresh
  · rw [Trace.suffer_background]
    exact h.background_of_live hphase

/-- The call leaves its `try` clause by an await that fails. -/
theorem abandon {applied : Bool} (h : TraceInv q old ran s) (hphase : s.phase.Live)
    (harming : s.phase = .arming → applied = false) (hrun : (s.suffer q applied).running = ran)
    (hran : s.armed = true → ran = true) {ending : TraceEnding} :
    TraceInv q old ran ((s.suffer q applied).finish ending) := by
  refine finish (h.suffer_table hphase harming) ?_ hrun ?_ ?_
  · rw [Trace.suffer_armed]
    exact h.fresh
  · rw [Trace.suffer_armed]
    exact hran
  · rw [Trace.suffer_background]
    exact h.background_of_live hphase

/-- The await raises. -/
theorem fail {applied : Bool} (h : TraceInv q old ran s)
    (hok : Orderly q s (.await (.raises applied)))
    (hstep : (s.suffer q applied).fail = some t) : TraceInv q old ran t := by
  have hcpu := h.cpu
  -- the phases are grouped by what the CPU does in them and by where an error leads
  cases hphase : s.phase
  all_goals
    simp only [Orderly, hphase] at hok
    simp only [Trace.Cpu, hphase] at hcpu
    simp only [Trace.fail, Trace.suffer_phase, hphase] at hstep
  case entering | probing | leavingPaused =>
    obtain ⟨hrun, hresume, harmed⟩ := hcpu
    have hsame : (s.suffer q applied).running = s.running :=
      Trace.suffer_running (by simp [hphase]) (by simp [hphase])
    have hnone : ¬ (s.suffer q applied).needsResume = true := by simp [hresume]
    rw [if_neg hnone] at hstep
    obtain rfl := Option.some.inj hstep
    exact h.abandon (by rw [hphase]; trivial) (by simp [hphase]) (hsame.trans hrun)
      fun h => by simp [harmed] at h
  case arming | leaving | waiting =>
    obtain ⟨hran, hrun, -⟩ := hcpu
    have hlive : s.phase.Live := by rw [hphase]; trivial
    have harming : s.phase = .arming → applied = false := by simp_all
    have hrunning : s.running = true := hrun.resolve_right fun hne => hne (by simp_all)
    have hsame : (s.suffer q applied).running = s.running :=
      Trace.suffer_running (by simp [hphase]) (by simp [hphase])
    split at hstep
    · obtain rfl := Option.some.inj hstep
      exact h.recover hlive harming hran
    · obtain rfl := Option.some.inj hstep
      exact h.abandon hlive harming (hsame.trans (hrunning.trans hran.symm)) fun _ => hran
  case timedOut p =>
    obtain ⟨hran, hrun, -⟩ := hcpu
    have hsame : (s.suffer q applied).running = s.running :=
      Trace.suffer_running (by simp [hphase]) (by simp [hphase])
    obtain rfl := Option.some.inj hstep
    exact h.abandon (by rw [hphase]; trivial) (by simp [hphase])
      (hsame.trans (hrun.trans hran.symm)) fun _ => hran
  case enteringHit | capturing | listing | removing | verifying | resuming =>
    have hresume : (s.suffer q applied).needsResume = true := by simp [hcpu]
    rw [if_pos hresume] at hstep
    obtain rfl := Option.some.inj hstep
    exact h.recover (by rw [hphase]; trivial) (by simp [hphase]) hcpu.1
  case leavingHit m removed =>
    obtain ⟨hran, hrun⟩ := hcpu
    have hlive : s.phase.Live := by rw [hphase]; trivial
    have hsame : (s.suffer q applied).running = s.running :=
      Trace.suffer_running (by simp [hphase]) (by simp [hphase])
    split at hstep
    · obtain rfl := Option.some.inj hstep
      exact h.recover hlive (by simp [hphase]) hran
    · obtain rfl := Option.some.inj hstep
      exact h.abandon hlive (by simp [hphase]) (hsame.trans (hrun.trans hran.symm)) fun _ => hran
  case recovering =>
    obtain rfl := Option.some.inj hstep
    exact h.abandon (by rw [hphase]; trivial) (by simp [hphase]) (hok.trans hcpu.symm)
      fun _ => hcpu
  case cleaning p ending =>
    obtain ⟨hran, hrun, harmed⟩ := hcpu
    obtain rfl := Option.some.inj hstep
    -- the removal at the end fails, but the address hosts no watchpoint
    have hfresh := h.fresh harmed
    have htable : (s.suffer q applied).table = old := by
      refine eq_old_of_findAt hfresh ?_ hok
      cases applied with
      | false => exact h.table.imp id And.left
      | true =>
        simp only [Trace.suffer, Trace.effect, hphase, if_true]
        exact p.applied_table hfresh (h.table.imp id And.left)
    have hsame : (s.suffer q applied).running = s.running :=
      Trace.suffer_running (by simp [hphase]) (by simp [hphase])
    have hnone : s.background.isSome ≠ true := by
      simp [h.background_eq_none fun ending hexited => by simp [hphase] at hexited]
    refine ⟨Or.inl htable, fun _ => hfresh, hsame.trans (hrun.trans hran.symm), fun hsome => ?_⟩
    exact absurd (by simpa using hsome) hnone
  case exited ending => cases hstep

/-- The await is cancelled. -/
theorem cancel {applied : Bool} (h : TraceInv q old ran s)
    (hok : Orderly q s (.await (.cancelled applied)))
    (hstep : s.cancel q applied = some t) : TraceInv q old ran t := by
  have hcpu := h.cpu
  cases hphase : s.phase
  all_goals
    simp only [Orderly, hphase] at hok
    simp only [Trace.Cpu, hphase] at hcpu
    simp only [Trace.cancel, hphase] at hstep
  case exited ending => cases hstep
  -- the removal is shielded, so a cancellation leaves it to go on in the background
  case cleaning p ending =>
    obtain ⟨hran, hrun, harmed⟩ := hcpu
    obtain rfl := Option.some.inj hstep
    have htable := h.table
    simp only [Trace.Pending, hphase] at htable
    exact ⟨htable.imp id (And.imp id fun hremoves => ⟨p, rfl, hremoves⟩), h.fresh,
      hrun.trans hran.symm, fun _ => ⟨harmed, ending, rfl⟩⟩
  all_goals
    obtain rfl := Option.some.inj hstep
    refine h.abandon (by rw [hphase]; trivial) (by simp_all) ?_ (by simp_all)
  case entering | probing | leavingPaused =>
    have hsame : (s.suffer q applied).running = s.running :=
      Trace.suffer_running (by simp [hphase]) (by simp [hphase])
    exact hsame.trans hcpu.1
  case arming | leaving | waiting =>
    have hrunning : s.running = true := hcpu.2.1.resolve_right fun hne => hne (by simp_all)
    have hsame : (s.suffer q applied).running = s.running :=
      Trace.suffer_running (by simp [hphase]) (by simp [hphase])
    exact hsame.trans (hrunning.trans hcpu.1.symm)
  case timedOut p =>
    have hsame : (s.suffer q applied).running = s.running :=
      Trace.suffer_running (by simp [hphase]) (by simp [hphase])
    exact hsame.trans (hcpu.2.1.trans hcpu.1.symm)
  case leavingHit m removed =>
    have hsame : (s.suffer q applied).running = s.running :=
      Trace.suffer_running (by simp [hphase]) (by simp [hphase])
    exact hsame.trans (hcpu.2.trans hcpu.1.symm)
  case recovering => exact hok.trans hcpu.symm
  all_goals exact hok.trans hcpu.1.symm

/-- The removal in the background goes on. -/
theorem progress {p : QuietPhase} {o : Await} (h : TraceInv q old ran s)
    (hbackground : s.background = some p) (hok : Orderly q s (.background o))
    (hstep : s.progress q p o = some t) : TraceInv q old ran t := by
  obtain ⟨harmed, ending, hphase⟩ := h.background (by rw [hbackground]; rfl)
  have hfresh := h.fresh harmed
  have hcpu := h.cpu
  simp only [Trace.Cpu, hphase] at hcpu
  have htable : s.table = old ∨ s.table = old ++ [q.watch] ∧ p.Removes q.size := by
    have htable := h.table
    simpa [Trace.Pending, hphase, hbackground] using htable
  -- the call has returned, so only the table can still change
  cases o with
  | ok =>
    have hnext := QuietPhase.next_table hfresh htable
    simp only [Trace.progress] at hstep
    split at hstep
    · rename_i p' hp'
      obtain rfl := Option.some.inj hstep
      rw [hp'] at hnext
      refine ⟨hnext.imp id (And.imp id fun hremoves => ?_), h.fresh, ?_, fun _ => ?_⟩
      · simpa [Trace.Pending, hphase] using hremoves
      · simpa [Trace.Cpu, hphase] using hcpu
      · exact ⟨harmed, ending, hphase⟩
    · rename_i hp'
      obtain rfl := Option.some.inj hstep
      rw [hp'] at hnext
      refine ⟨Or.inl hnext, h.fresh, ?_, fun h => nomatch h⟩
      simpa [Trace.Cpu, hphase] using hcpu
  | raises applied =>
    obtain rfl := Option.some.inj hstep
    have hold : (if applied then p.applied q.address s.table else s.table) = old := by
      refine eq_old_of_findAt hfresh ?_ (hok p hbackground)
      cases applied with
      | false => exact htable.imp id And.left
      | true => exact p.applied_table hfresh (htable.imp id And.left)
    refine ⟨Or.inl hold, h.fresh, ?_, fun h => nomatch h⟩
    simpa [Trace.Cpu, hphase] using hcpu
  | cancelled applied => cases hstep

theorem begin : TraceInv q old ran (Trace.begin q old ran) := by
  refine ⟨Or.inl rfl, fun harmed => (nomatch harmed), ?_, fun hsome => (nomatch hsome)⟩
  unfold Trace.begin
  split
  · exact rfl
  · exact ⟨rfl, rfl, rfl⟩

theorem step {e : TraceLabel} (h : TraceInv q old ran s) (hok : Orderly q s e)
    (hstep : (tracing q).step s e = some t) : TraceInv q old ran t := by
  cases Trace.takes_of_step hstep with
  | stop _ => exact h.stop hok
  | succeeds hnext => exact h.proceed hok hnext
  | fails hnext => exact h.fail hok hnext
  | isCancelled hnext => exact h.cancel hok hnext
  | take hphase _ => exact h.take hphase
  | timesOut hphase => exact h.timesOut hphase hok
  | background hbackground hnext => exact h.progress hbackground hok hnext

end TraceInv

/-! ## Runs -/

theorem traceInv_of_reaches (h : (tracing q).Reaches (Orderly q) (Trace.begin q old ran) s) :
    TraceInv q old ran s :=
  h.invariant .begin fun _ _ _ hinv hok hstep => hinv.step hok hstep

/-- A call that has ended has restored the run state, and the watchpoints too once no removal
is left in the background. -/
theorem restored_of_reaches (h : (tracing q).Reaches (Orderly q) (Trace.begin q old ran) s)
    {ending : TraceEnding} (hphase : s.phase = .exited ending) :
    s.running = ran ∧ (s.background = none → s.table = old) := by
  have hinv := traceInv_of_reaches h
  have hcpu := hinv.cpu
  simp only [Trace.Cpu, hphase] at hcpu
  refine ⟨hcpu, fun hbackground => ?_⟩
  have htable := hinv.table
  simpa [Trace.Pending, hphase, hbackground] using htable

/-- A removal that goes on in the background, in a table that does not need it, changes
nothing. -/
theorem background_continues {e : TraceLabel} (hinv : TraceInv q old ran s) {p : QuietPhase}
    (hbackground : s.background = some p) (hold : s.table = old)
    (hstep : (tracing q).step s e = some t) (hsome : t.background.isSome = true) :
    t.table = old := by
  obtain ⟨harmed, ending, hphase⟩ := hinv.background (by rw [hbackground]; rfl)
  have hkeep : p.applied q.address s.table = old := by
    rw [hold]
    cases p with
    | removing size => exact MemTable.remove_of_findAt_none (hinv.fresh harmed)
    | entering => rfl
    | listing => rfl
    | verifying => rfl
  -- the call itself has ended, so only the emulator and the removal take steps
  cases Trace.takes_of_step hstep with
  | stop _ => exact hold
  | succeeds hnext => simp [Trace.proceed, hphase] at hnext
  | fails hnext => simp [Trace.fail, hphase] at hnext
  | isCancelled hnext => simp [Trace.cancel, hphase] at hnext
  | take hwaiting _ => simp [hphase] at hwaiting
  | timesOut hwaiting => simp [hphase] at hwaiting
  | @background _ o p' hp hnext =>
    obtain rfl := Option.some.inj (hbackground.symm.trans hp)
    simp only [Trace.progress] at hnext
    cases o with
    | ok =>
      simp only at hnext
      split at hnext
      all_goals
        obtain rfl := Option.some.inj hnext
        exact hkeep
    | raises applied =>
      obtain rfl := Option.some.inj hnext
      exact nomatch hsome
    | cancelled applied => exact nomatch hnext

/-- A removal that is left to the background finds a table that does not need it. -/
theorem background_begins {e : TraceLabel} (hinv : TraceInv q old ran s)
    (hnone : s.background = none) (hok : Prompt q s e)
    (hstep : (tracing q).step s e = some t) (hsome : t.background.isSome = true) :
    t.table = old := by
  have hkept : t.background = s.background → t.table = old := fun hkept => by
    rw [hkept, hnone] at hsome
    cases hsome
  cases Trace.takes_of_step hstep with
  | stop _ => exact hkept rfl
  | succeeds hnext => exact hkept ((Trace.proceed_background hnext).trans Trace.effect_background)
  | fails hnext => exact hkept ((Trace.fail_background hnext).trans Trace.suffer_background)
  | isCancelled hnext =>
    -- only a cancellation of the shielded removal leaves it to the background
    rcases Trace.cancel_background hnext with hsame | ⟨hsame, p, ending, hphase⟩
    · exact hkept hsame
    · have hcpu := hinv.cpu
      simp only [Trace.Cpu, hphase] at hcpu
      simp only [Prompt, hphase] at hok
      rw [hsame]
      exact eq_old_of_findAt (hinv.fresh hcpu.2.2) (hinv.table.imp id And.left) hok
  | take _ _ => exact hkept rfl
  | timesOut _ => exact hkept rfl
  | background hp _ =>
    rw [hnone] at hp
    cases hp

/-- A removal in the background finds a table that does not need it. -/
theorem background_step {e : TraceLabel} (hinv : TraceInv q old ran s)
    (htable : s.background.isSome = true → s.table = old) (hok : Prompt q s e)
    (hstep : (tracing q).step s e = some t) (hsome : t.background.isSome = true) :
    t.table = old := by
  cases hbackground : s.background with
  | none => exact background_begins hinv hbackground hok hstep hsome
  | some p =>
    have hold : s.table = old := htable (by rw [hbackground]; rfl)
    exact background_continues hinv hbackground hold hstep hsome

theorem background_of_reaches
    (h : (tracing q).Reaches (fun s e => Orderly q s e ∧ Prompt q s e) (Trace.begin q old ran) s) :
    s.background.isSome = true → s.table = old := by
  induction h with
  | refl => exact fun hsome => nomatch hsome
  | tail hreaches hok hstep ih =>
    have hinv := traceInv_of_reaches (hreaches.mono fun _ _ => And.left)
    exact background_step hinv ih hok.2 hstep

/-- A call whose removal at the end is not cancelled either is transparent. -/
theorem transparent_of_reaches (q : TraceRequest) (old : MemTable) (ran : Bool) (s : Trace)
    (h : (tracing q).Reaches (fun s e => Orderly q s e ∧ Prompt q s e) (Trace.begin q old ran) s) :
    Transparent old ran s := by
  intro ending hphase
  obtain ⟨hrun, htable⟩ := restored_of_reaches (h.mono fun _ _ => And.left) hphase
  refine ⟨?_, hrun⟩
  rcases hbackground : s.background with _ | p
  · exact htable hbackground
  · exact background_of_reaches h (by rw [hbackground]; rfl)

/-- A call that captures a hit leaves a watchpoint at another address alone. -/
theorem transparent_hit :
    ∃ s, (∃ r, s.phase = .exited (.returned r) ∧ r.hit = true) ∧
      Transparent [⟨0x08A0D004, 4, true, true, false, true, false, none, none⟩] true s := by
  let q : TraceRequest := ⟨"0x08A0D000", 0x08A0D000, .read, 4⟩
  let old : MemTable := [⟨0x08A0D004, 4, true, true, false, true, false, none, none⟩]
  let m : Stop := ⟨some 0x08804000, none, none, none, fun _ => none⟩
  let labels : List TraceLabel :=
    [.await .ok, .await .ok, .await .ok, .stop m, .await .ok, .take, .await .ok, .await .ok,
      .await .ok, .await .ok, .await .ok, .await .ok, .await .ok]
  let test (s : Trace) : Bool :=
    match s.phase with
    | .exited (.returned r) => r.hit
    | _ => false
  have hends : ((tracing q).runWith (fun s e => Orderly q s e ∧ Prompt q s e)
      (Trace.begin q old true) labels).any test = true := by decide +kernel
  obtain ⟨s, hs, htest⟩ := Machine.exists_reaches_of_runWith labels hends
  refine ⟨s, ?_, transparent_of_reaches q old true s hs⟩
  simp only [test] at htest
  split at htest
  · rename_i r hphase
    exact ⟨r, hphase, htest⟩
  · exact nomatch htest

/-- The call removes the watchpoint that the user had set at the address. -/
theorem watchpoint_of_user_lost :
    ¬ ∀ (q : TraceRequest) (old : MemTable) (ran : Bool) (s : Trace),
      (tracing q).Reachable (Trace.begin q old ran) s → Transparent old ran s := by
  intro hall
  let q : TraceRequest := ⟨"0x08A0D000", 0x08A0D000, .read, 4⟩
  let old : MemTable := [⟨0x08A0D000, 4, false, true, false, true, false, none, none⟩]
  let labels : List TraceLabel :=
    [.await .ok, .await .ok, .await .ok, .await .ok, .timesOut, .await .ok, .await .ok,
      .await .ok, .await .ok]
  let test (s : Trace) : Bool :=
    match s.phase with
    | .exited _ => s.table = []
    | _ => false
  have hends : ((tracing q).run (Trace.begin q old true) labels).any test = true := by
    decide +kernel
  obtain ⟨s, hs, htest⟩ := Machine.exists_reachable_of_run labels hends
  simp only [test] at htest
  split at htest
  · rename_i ending hphase
    have hlost : s.table = [] := of_decide_eq_true htest
    have hkept : s.table = old := (hall q old true s hs ending hphase).1
    rw [hlost] at hkept
    exact nomatch hkept
  · exact nomatch htest

end Transparent

end Breakpoint
