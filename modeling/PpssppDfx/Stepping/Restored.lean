import PpssppDfx.Stepping.Snapshot

/-!
# The run state after a snapshot

A pause that fails after its command was sent is not answered with a resume, nor is a cancellation
among the reads, so that a CPU that ran may stay paused; and a resume that fails is not sent again.
A CPU that was stepping is resumed when the `with_stepping` context around the program counter takes
it for a running one. Other outcomes do no harm: up to the first one that does, a call is in order,
and from there on it is doomed.

## Main results

* `FrameSnapshot.awaits_of_happens` — what an await of a context does
* `FrameSnapshot.clean_apply`, `FrameSnapshot.doomed_apply_of_clean`,
  `FrameSnapshot.doomed_apply` — what each await keeps
* `FrameSnapshot.restored_iff` — the calls that restore the run state
-/

set_option autoImplicit false

namespace FrameSnapshot

open Semantics
open WithStepping (Command ResumeTask BodyExit CallResult)

/-! ## Contexts -/

section Contexts

variable {cfg : Config} {s : State} {p q : WithStepping.State} {e : WithStepping.Event}

/-- What holds in a context that goes on. -/
structure Inner (cfg : Config) (p : WithStepping.State) : Prop where
  inv : WithStepping.Inv cfg.context p
  going : ∀ exit, p.phase ≠ .exited exit

theorem inner_init : Inner cfg WithStepping.init where
  inv := WithStepping.inv_of_reachable .refl
  going := fun exit => by rintro ⟨⟩

theorem inv_running {c : WithStepping.Config} (h : WithStepping.Inv c p) (running : Bool) :
    WithStepping.Inv { c with running := running } p :=
  ⟨h.resumeIssued, h.entering, h.probing, h.body, h.shielding, h.confirmed, h.failed, h.kept,
    h.resumed⟩

theorem inv_apply_of_happens (h : WithStepping.Inv cfg.context p) (he : happens cfg p e = true) :
    WithStepping.Inv cfg.context (WithStepping.apply cfg.context p e) := by
  rcases Bool.or_eq_true_iff.mp he with he | he
  · exact inv_running (WithStepping.inv_apply (inv_running h true) he) cfg.running
  · exact inv_running (WithStepping.inv_apply (inv_running h false) he) cfg.running

/-- The await that an outcome belongs to. -/
def Stands (p : WithStepping.State) : WithStepping.Event → Prop
  | .probed _ => p.phase = .probing
  | .pauseProbed _ => p.phase = .pauseProbing
  | .steppingSent _ => p.phase = .pauseSending
  | .pausePolled _ _ _ => p.phase = .pausePolling
  | .pauseSlept _ => p.phase = .pauseSleeping
  | .bodyDone _ => p.phase = .body
  | .resumeStarts => p.resumeTask = .scheduled
  | .resumeSent _ => p.resumeTask = .sending
  | .broadcastAwaited _ => p.resumeTask = .awaitingBroadcast
  | .resumePolled _ _ => p.resumeTask = .polling
  | .resumeSlept => p.resumeTask = .sleeping
  | .shieldDone => ∃ b ok, p.phase = .shielding b ∧ p.resumeTask = .finished ok
  | .callerCancelled => ∃ b, p.phase = .shielding b

theorem stands_of_enabled {c : WithStepping.Config} (he : WithStepping.enabled c p e = true) :
    Stands p e := by
  cases e with
  | probed r =>
    cases r with
    | answered status => exact beq_iff_eq.mp (Bool.and_eq_true_iff.mp he).1
    | timedOut text => exact beq_iff_eq.mp he
    | raised text => exact beq_iff_eq.mp he
    | cancelled => exact beq_iff_eq.mp he
  | shieldDone =>
    simp only [WithStepping.enabled] at he
    split at he
    next b ok hphase htask => exact ⟨b, ok, hphase, htask⟩
    · cases he
  | callerCancelled =>
    simp only [WithStepping.enabled] at he
    split at he
    next b hphase => exact ⟨b, hphase⟩
    · cases he
  | pauseProbed r => exact beq_iff_eq.mp he
  | steppingSent r => exact beq_iff_eq.mp he
  | pausePolled r deadline alive => exact beq_iff_eq.mp he
  | pauseSlept cancelled => exact beq_iff_eq.mp he
  | bodyDone b => exact beq_iff_eq.mp he
  | resumeStarts => exact beq_iff_eq.mp he
  | resumeSent sent => exact beq_iff_eq.mp he
  | broadcastAwaited confirmed => exact beq_iff_eq.mp he
  | resumePolled r deadline => exact beq_iff_eq.mp he
  | resumeSlept => exact beq_iff_eq.mp he

theorem stands_of_happens (he : happens cfg p e = true) : Stands p e :=
  (Bool.or_eq_true_iff.mp he).elim stands_of_enabled stands_of_enabled

/-- A context with a resume task waits for it. -/
theorem Inner.shielding_of_task (h : Inner cfg p) (htask : p.resumeTask ≠ .absent) :
    ∃ b, p.phase = .shielding b := by
  have hentering : p.phase.entering = false := by
    by_contra hne
    exact htask (h.inv.entering (Bool.not_eq_false _ ▸ hne)).2.2
  cases hphase : p.phase with
  | shielding b => exact ⟨b, rfl⟩
  | body => exact absurd (h.inv.body hphase).1 htask
  | exited exit => exact absurd hphase (h.going exit)
  | probing | pauseProbing | pauseSending | pausePolling | pauseSleeping =>
    rw [hphase] at hentering
    cases hentering

/-- The task has sent its command and is not over. -/
def underway : ResumeTask → Bool
  | .awaitingBroadcast | .polling | .sleeping => true
  | _ => false

/-- A task that has tried to send its command does not try again. -/
theorem not_before {task : ResumeTask} (h : underway task = true ∨ ∃ ok, task = .finished ok) :
    ¬ (task = .absent ∨ unsent task = true) := by
  cases task <;> simp_all [underway, unsent]

/-- Neither the resume nor a cancellation behind the body. -/
def Plain : WithStepping.Event → Prop
  | .resumeSent _ | .callerCancelled => False
  | _ => True

theorem abandons_iff (h : Plain e) : Abandons cfg s p e ↔ Cancels cfg p e := by
  cases e with
  | resumeSent _ | callerCancelled => exact h.elim
  | _ => exact Iff.rfl

theorem resume_notMem_sends (h : Plain e) : .resume ∉ sends e := by
  cases e with
  | resumeSent _ => exact h.elim
  | steppingSent r => cases r <;> simp [sends]
  | _ => simp [sends]

/-- What an await of a context does. -/
inductive Awaits (cfg : Config) (p : WithStepping.State) :
    WithStepping.Event → WithStepping.State → Prop
  | goesOn {e : WithStepping.Event} {q : WithStepping.State} (hplain : Plain e)
      (htask : p.resumeTask = .absent) (htask' : q.resumeTask = .absent)
      (hgoing : ∀ exit, q.phase ≠ .exited exit) (hcancels : ¬ Cancels cfg p e) : Awaits cfg p e q
  | leaves {e : WithStepping.Event} {q : WithStepping.State} {exit : WithStepping.Exit}
      (hplain : Plain e) (htask : p.resumeTask = .absent) (htask' : q.resumeTask = .absent)
      (hexit : q.phase = .exited exit) (hcancels : exit = .cancelled ↔ Cancels cfg p e) :
      Awaits cfg p e q
  | bodyEnds {b : BodyExit} {q : WithStepping.State} (htask : p.resumeTask = .absent)
      (hkeeps : WithStepping.keepsState cfg.context p = false) (hphase : q.phase = .shielding b)
      (htask' : q.resumeTask = .scheduled) : Awaits cfg p (.bodyDone b) q
  | starts {b : BodyExit} {q : WithStepping.State} (htask : p.resumeTask = .scheduled)
      (hphase : q.phase = .shielding b) (htask' : q.resumeTask = .sending) :
      Awaits cfg p .resumeStarts q
  | resumes {b : BodyExit} {q : WithStepping.State} (hphase : p.phase = .shielding b)
      (htask : p.resumeTask = .sending) (hphase' : q.phase = .shielding b)
      (htask' : underway q.resumeTask = true) : Awaits cfg p (.resumeSent true) q
  | fails {b : BodyExit} {q : WithStepping.State} (hphase : p.phase = .shielding b)
      (htask : p.resumeTask = .sending) (hphase' : q.phase = .shielding b)
      (htask' : q.resumeTask = .finished false) : Awaits cfg p (.resumeSent false) q
  | confirms {e : WithStepping.Event} {b : BodyExit} {q : WithStepping.State} (hplain : Plain e)
      (hsends : sends e = []) (hcancels : ¬ Cancels cfg p e)
      (htask : underway p.resumeTask = true) (hphase' : q.phase = .shielding b)
      (htask' : underway q.resumeTask = true ∨ ∃ ok, q.resumeTask = .finished ok) :
      Awaits cfg p e q
  | unshields {b : BodyExit} {ok : Bool} {q : WithStepping.State} (hphase : p.phase = .shielding b)
      (htask : p.resumeTask = .finished ok)
      (hexit : q.phase = .exited (WithStepping.shieldExit b ok))
      (htask' : q.resumeTask = .finished ok) : Awaits cfg p .shieldDone q
  | cutOff {b : BodyExit} {q : WithStepping.State} (hphase : p.phase = .shielding b)
      (hexit : q.phase = .exited .cancelled) (htask' : q.resumeTask = p.resumeTask) :
      Awaits cfg p .callerCancelled q

/-- An await on the way into the body that does not end the context. -/
theorem awaits_afterProbe (htask : p.resumeTask = .absent) (hplain : Plain e)
    (hcancels : ¬ Cancels cfg p e) (said : Option Bool) :
    Awaits cfg p e (WithStepping.afterProbe cfg.context { p with probeSaid := said }) := by
  unfold WithStepping.afterProbe
  split
  · exact .goesOn hplain htask htask (fun exit => by rintro ⟨⟩) hcancels
  · exact .goesOn hplain htask htask (fun exit => by rintro ⟨⟩) hcancels

/-- A pause that was not confirmed in time ends the context. -/
theorem awaits_pauseTimedOut (htask : p.resumeTask = .absent) (hplain : Plain e)
    (hcancels : ¬ Cancels cfg p e) (text : String) (alive : Bool) :
    Awaits cfg p e (WithStepping.pauseTimedOut cfg.context p text alive) := by
  unfold WithStepping.pauseTimedOut
  split
  · exact .leaves hplain htask htask rfl (iff_of_false (by rintro ⟨⟩) hcancels)
  · exact .leaves hplain htask htask rfl (iff_of_false (by rintro ⟨⟩) hcancels)

theorem awaits_of_happens (h : Inner cfg p) (he : happens cfg p e = true) :
    Awaits cfg p e (WithStepping.apply cfg.context p e) := by
  have hstands := stands_of_happens he
  have hfront {phase : WithStepping.Phase} (hphase : p.phase = phase)
      (hentering : phase.entering = true) : p.resumeTask = .absent :=
    (h.inv.entering (hphase ▸ hentering)).2.2
  have hbehind (htask : p.resumeTask ≠ .absent) := h.shielding_of_task htask
  cases e with
  | probed r =>
    have htask := hfront hstands rfl
    cases r with
    | answered status =>
      exact awaits_afterProbe (e := .probed (.answered status)) htask trivial id _
    | timedOut text =>
      exact awaits_afterProbe (e := .probed (.timedOut text)) htask trivial id p.probeSaid
    | raised text =>
      exact awaits_afterProbe (e := .probed (.raised text)) htask trivial id p.probeSaid
    | cancelled => exact .leaves trivial htask htask rfl (iff_of_true rfl trivial)
  | pauseProbed r =>
    have htask := hfront hstands rfl
    cases r with
    | cancelled => exact .leaves trivial htask htask rfl (iff_of_true rfl trivial)
    | answered _ | timedOut _ | raised _ =>
      exact .goesOn trivial htask htask (fun exit => by rintro ⟨⟩) id
  | steppingSent r =>
    have htask := hfront hstands rfl
    cases r with
    | sent => exact .goesOn trivial htask htask (fun exit => by rintro ⟨⟩) id
    | raised text => exact .leaves trivial htask htask rfl (iff_of_false (by rintro ⟨⟩) id)
    | cancelled => exact .leaves trivial htask htask rfl (iff_of_true rfl trivial)
  | pausePolled r deadline alive =>
    have htask := hfront hstands rfl
    have htimedOut (hcancels : ¬ Cancels cfg p (.pausePolled r deadline alive)) (text : String) :
        Awaits cfg p (.pausePolled r deadline alive)
          (WithStepping.pauseTimedOut cfg.context p text alive) :=
      awaits_pauseTimedOut (e := .pausePolled r deadline alive) htask trivial hcancels text alive
    cases r with
    | answered status =>
      simp only [WithStepping.apply]
      -- confirmed, out of time, or to be polled again
      split_ifs
      · exact .goesOn trivial htask htask (fun exit => by rintro ⟨⟩) id
      · exact htimedOut id _
      · exact .goesOn trivial htask htask (fun exit => by rintro ⟨⟩) id
    | timedOut text => exact htimedOut id _
    | raised text => exact .leaves trivial htask htask rfl (iff_of_false (by rintro ⟨⟩) id)
    | cancelled => exact .leaves trivial htask htask rfl (iff_of_true rfl trivial)
  | pauseSlept cancelled =>
    have htask := hfront hstands rfl
    cases cancelled with
    | true => exact .leaves trivial htask htask rfl (iff_of_true rfl rfl)
    | false => exact .goesOn trivial htask htask (fun exit => by rintro ⟨⟩) (by rintro ⟨⟩)
  | bodyDone b =>
    have htask := (h.inv.body hstands).1
    simp only [WithStepping.apply]
    split
    next hkeeps =>
      refine .leaves trivial htask htask rfl ?_
      cases b with
      | cancelled => exact iff_of_true rfl hkeeps
      | returned | raised => exact iff_of_false (by rintro ⟨⟩) id
    next hkeeps => exact .bodyEnds htask (Bool.not_eq_true _ ▸ hkeeps) rfl rfl
  | resumeStarts =>
    have htask : p.resumeTask = .scheduled := hstands
    obtain ⟨b, hphase⟩ := hbehind (by rw [htask]; rintro ⟨⟩)
    exact .starts htask hphase rfl
  | resumeSent ok =>
    have htask : p.resumeTask = .sending := hstands
    obtain ⟨b, hphase⟩ := hbehind (by rw [htask]; rintro ⟨⟩)
    cases ok with
    | false => exact .fails hphase htask hphase rfl
    | true =>
      refine .resumes hphase htask ?_ ?_
      · simp only [WithStepping.apply]
        split_ifs <;> exact hphase
      · simp only [WithStepping.apply]
        split_ifs <;> first | rfl | contradiction
  | broadcastAwaited confirmed =>
    have htask : p.resumeTask = .awaitingBroadcast := hstands
    obtain ⟨b, hphase⟩ := hbehind (by rw [htask]; rintro ⟨⟩)
    refine .confirms trivial rfl id (by rw [htask]; rfl) hphase ?_
    cases confirmed with
    | true => exact Or.inr ⟨true, rfl⟩
    | false => exact Or.inl rfl
  | resumePolled r deadline =>
    have htask : p.resumeTask = .polling := hstands
    obtain ⟨b, hphase⟩ := hbehind (by rw [htask]; rintro ⟨⟩)
    have hunderway : underway p.resumeTask = true := by rw [htask]; rfl
    cases r with
    | answered status =>
      simp only [WithStepping.apply]
      split_ifs
      · exact .confirms trivial rfl id hunderway hphase (Or.inr ⟨true, rfl⟩)
      · exact .confirms trivial rfl id hunderway hphase (Or.inr ⟨false, rfl⟩)
      · exact .confirms trivial rfl id hunderway hphase (Or.inl rfl)
    | timedOut _ | raised _ | cancelled =>
      exact .confirms trivial rfl id hunderway hphase (Or.inr ⟨false, rfl⟩)
  | resumeSlept =>
    have htask : p.resumeTask = .sleeping := hstands
    obtain ⟨b, hphase⟩ := hbehind (by rw [htask]; rintro ⟨⟩)
    exact .confirms trivial rfl id (by rw [htask]; rfl) hphase (Or.inl rfl)
  | shieldDone =>
    obtain ⟨b, ok, hphase, htask⟩ := hstands
    refine .unshields hphase htask ?_ ?_
    · simp only [WithStepping.apply, hphase, htask]
    · simp only [WithStepping.apply, hphase, htask]
  | callerCancelled =>
    obtain ⟨b, hphase⟩ := hstands
    exact .cutOff hphase rfl rfl

theorem inner_apply (h : Inner cfg p) (he : happens cfg p e = true)
    (hgoing : ∀ exit, (WithStepping.apply cfg.context p e).phase ≠ .exited exit) :
    Inner cfg (WithStepping.apply cfg.context p e) :=
  ⟨inv_apply_of_happens h.inv he, hgoing⟩

end Contexts

/-! ## Steps -/

section Steps

variable {cfg : Config} {s : State} {p q : WithStepping.State} {e : WithStepping.Event}

theorem Resumed.restored (h : Resumed s) (hrunning : cfg.running = true) : Restored cfg s := by
  rw [Restored, commanded, h, hrunning]

theorem Resumed.not_restored (h : Resumed s) (hstepping : cfg.running = false) :
    ¬ Restored cfg s := by
  rw [Restored, commanded, h, hstepping]
  rintro ⟨⟩

theorem restored_of_notMem (hstepping : cfg.running = false) (h : .resume ∉ s.sent) :
    Restored cfg s := by
  rw [Restored, commanded, hstepping]
  cases hlast : s.sent.getLast? with
  | none => rfl
  | some command =>
    cases command with
    | stepping => rfl
    | resume => exact absurd (List.mem_of_getLast? hlast) h

/-- A CPU that ran is left in the state that the last command asks for. -/
theorem not_restored_of_ne (hrunning : cfg.running = true) (hne : s.sent ≠ [])
    (h : ¬ Resumed s) : ¬ Restored cfg s := by
  rw [Restored, commanded, hrunning]
  cases hlast : s.sent.getLast? with
  | none => exact absurd (List.getLast?_eq_none_iff.mp hlast) hne
  | some command =>
    cases command with
    | stepping => rintro ⟨⟩
    | resume => exact absurd hlast h

/-- A CPU that ran and was sent something is back when it was resumed last. -/
theorem restored_iff_resumed (hrunning : cfg.running = true) (hne : s.sent ≠ []) :
    Restored cfg s ↔ Resumed s :=
  ⟨fun h => not_not.mp fun hnot => not_restored_of_ne hrunning hne hnot h,
    fun h => h.restored hrunning⟩

/-- The state after what an await has sent. -/
def State.after (s : State) (e : WithStepping.Event) : State := { s with sent := s.sent ++ sends e }

theorem resumed_after_resumeSent (s : State) : Resumed (s.after (.resumeSent true)) :=
  List.getLast?_concat

theorem after_eq_self (h : sends e = []) : s.after e = s := by
  rw [State.after, h, List.append_nil]

/-- Only a resume that is sent makes it the last command. -/
theorem not_resumed_after (hplain : Plain e) (h : ¬ Resumed s) : ¬ Resumed (s.after e) := by
  rw [Resumed, State.after, List.getLast?_append]
  cases hlast : (sends e).getLast? with
  | none => exact h
  | some command =>
    rintro ⟨⟩
    exact resume_notMem_sends hplain (List.mem_of_getLast? hlast)

/-- With the reads still to come or to be left, a CPU that ran was sent some command, and one that
was stepping was not resumed. -/
structure Level (cfg : Config) (s : State) : Prop where
  was : s.wasStepping = !cfg.running
  some : cfg.running = true → s.sent ≠ []
  none : cfg.running = false → .resume ∉ s.sent

theorem Level.was_of_stepping (h : Level cfg s) (hstepping : cfg.running = false) :
    s.wasStepping = true := by rw [h.was, hstepping]; rfl

theorem Level.after (h : Level cfg s) (hsends : cfg.running = false → .resume ∉ sends e) :
    Level cfg (s.after e) where
  was := h.was
  some := fun hrunning => List.append_ne_nil_of_left_ne_nil (h.some hrunning) _
  none := fun hstepping hmem =>
    (List.mem_append.mp hmem).elim (h.none hstepping) (hsends hstepping)

/-- What was sent to a CPU that ran, as far as its context says. -/
structure Tracks (s : State) (p : WithStepping.State) : Prop where
  before : p.resumeTask = .absent ∨ unsent p.resumeTask = true → ¬ Resumed s
  behind : underway p.resumeTask = true → Resumed s
  cancelled : p.phase = .shielding .cancelled → (∃ ok, p.resumeTask = .finished ok) → Resumed s

/-- Before its resume is sent, a context has nothing to answer for. -/
theorem tracks_of_unsent (h : ¬ Resumed s)
    (htask : p.resumeTask = .absent ∨ unsent p.resumeTask = true) : Tracks s p where
  before := fun _ => h
  behind := fun hunderway => absurd htask (not_before (Or.inl hunderway))
  cancelled := fun _ hfinished => absurd htask (not_before (Or.inr hfinished))

/-- `pause()` between two awaits. -/
def Pausing (s : State) (p : WithStepping.State) : Prop :=
  p.resumeTask = .absent ∧
    ((p.phase = .pauseProbing ∨ p.phase = .pauseSending) ∧ s.sent = [] ∨
      (p.phase = .pausePolling ∨ p.phase = .pauseSleeping) ∧ s.sent = [.stepping])

/-- Nothing has gone wrong yet. -/
def Clean (cfg : Config) (s : State) : Prop :=
  match s.phase with
  | .opening => s.wasStepping = false ∧ s.sent = []
  | .pausing p => cfg.running = true ∧ s.wasStepping = false ∧ Pausing s p
  | .reading p => Level cfg s ∧ Inner cfg p ∧ (cfg.running = true → Tracks s p)
  | .registers | .probing => Level cfg s
  | .recovering task | .resuming task =>
    cfg.running = true ∧ s.sent ≠ [] ∧ (task = .sending ∨ Resumed s)
  | .cutOff => Level cfg s ∧ (cfg.running = true → ¬ Resumed s)
  | .exited _ => Restored cfg s

/-- A CPU that was stepping has been resumed. -/
structure Wrong (cfg : Config) (s : State) : Prop where
  stepping : cfg.running = false
  was : s.wasStepping = true
  resumed : Resumed s

/-- A CPU that ran was paused, and nobody is going to resume it: the call was cancelled in the body,
and the task in the shield has failed. -/
structure Lost (cfg : Config) (s : State) (p : WithStepping.State) : Prop where
  running : cfg.running = true
  some : s.sent ≠ []
  notResumed : ¬ Resumed s
  phase : p.phase = .shielding .cancelled
  task : p.resumeTask = .finished false

/-- The run state is not going to be restored. -/
def Doomed (cfg : Config) (s : State) : Prop :=
  match s.phase with
  | .reading p => Inner cfg p ∧ (Lost cfg s p ∨ Wrong cfg s ∧
      (underway p.resumeTask = true ∨ ∃ ok, p.resumeTask = .finished ok))
  | .registers | .probing => Wrong cfg s
  | .exited _ => ¬ Restored cfg s
  | _ => False

theorem clean_init : Clean cfg init := ⟨rfl, rfl⟩

theorem Level.restored_of_stepping (h : Level cfg s) (hstepping : cfg.running = false) :
    Restored cfg s :=
  restored_of_notMem hstepping (h.none hstepping)

theorem Level.restored_iff_or (h : Level cfg s) :
    Restored cfg s ↔ s.wasStepping = true ∨ Resumed s := by
  cases hrunning : cfg.running with
  | true =>
    have hran : s.wasStepping = false := by rw [h.was, hrunning]; rfl
    rw [restored_iff_resumed hrunning (h.some hrunning), hran, or_iff_right Bool.false_ne_true]
  | false =>
    exact iff_of_true (h.restored_of_stepping hrunning) (Or.inl (h.was_of_stepping hrunning))

theorem Level.fails (h : Level cfg s) : Clean cfg (fails s) := by
  rw [FrameSnapshot.fails, h.was]
  cases hrunning : cfg.running with
  | true => exact ⟨hrunning, h.some hrunning, Or.inl rfl⟩
  | false => exact h.restored_of_stepping hrunning

theorem Level.finish (h : Level cfg s) : Clean cfg (finish s) := by
  rw [FrameSnapshot.finish, h.was]
  cases hrunning : cfg.running with
  | true => exact ⟨hrunning, h.some hrunning, Or.inl rfl⟩
  | false => exact h.restored_of_stepping hrunning

theorem Level.afterRegisters (h : Level cfg s) : Clean cfg (afterRegisters cfg s) := by
  rw [FrameSnapshot.afterRegisters]
  split
  · exact ⟨h.was, h.some, h.none⟩
  · exact h.finish

theorem Level.afterRead (h : Level cfg s) : Clean cfg (afterRead cfg s) := by
  rw [FrameSnapshot.afterRead]
  split
  · exact ⟨h.was, h.some, h.none⟩
  · exact h.afterRegisters

theorem Wrong.finish (h : Wrong cfg s) : Doomed cfg (finish s) := by
  rw [FrameSnapshot.finish, if_pos h.was]
  exact h.resumed.not_restored h.stepping

theorem Wrong.fails (h : Wrong cfg s) : Doomed cfg (fails s) := by
  rw [FrameSnapshot.fails, if_pos h.was]
  exact h.resumed.not_restored h.stepping

theorem Wrong.afterRegisters (h : Wrong cfg s) : Doomed cfg (afterRegisters cfg s) := by
  rw [FrameSnapshot.afterRegisters]
  split
  · exact ⟨h.stepping, h.was, h.resumed⟩
  · exact h.finish

theorem Wrong.afterRead (h : Wrong cfg s) : Doomed cfg (afterRead cfg s) := by
  rw [FrameSnapshot.afterRead]
  split
  · exact ⟨h.stepping, h.was, h.resumed⟩
  · exact h.afterRegisters

/-! ### The pause -/

/-- The outcomes in `pause()`: before its command was sent, and behind it. -/
theorem Pausing.cases (hp : Pausing s p) (hstands : Stands p e) :
    s.sent = [] ∧ ((∃ r, e = .pauseProbed r) ∨ ∃ r, e = .steppingSent r) ∨
      s.sent = [.stepping] ∧ ((∃ r deadline alive, e = .pausePolled r deadline alive) ∨
        ∃ cancelled, e = .pauseSlept cancelled) := by
  obtain ⟨htask, ⟨hphase, hsent⟩ | ⟨hphase, hsent⟩⟩ := hp
  · refine Or.inl ⟨hsent, ?_⟩
    cases e with
    | pauseProbed r => exact Or.inl ⟨r, rfl⟩
    | steppingSent r => exact Or.inr ⟨r, rfl⟩
    | callerCancelled =>
      obtain ⟨b, hshield⟩ := hstands
      simp_all
    | _ => simp_all [Stands]
  · refine Or.inr ⟨hsent, ?_⟩
    cases e with
    | pausePolled r deadline alive => exact Or.inl ⟨r, deadline, alive, rfl⟩
    | pauseSlept cancelled => exact Or.inr ⟨cancelled, rfl⟩
    | callerCancelled =>
      obtain ⟨b, hshield⟩ := hstands
      simp_all
    | _ => simp_all [Stands]

theorem restored_of_nothing (h : s.sent = []) : Restored cfg s := by
  rw [Restored, commanded, h]
  rfl

/-- A step of `pause()` that succeeds, or its end before the command was sent. -/
theorem clean_paused (hrunning : cfg.running = true) (hwas : s.wasStepping = false)
    (hp : Pausing s p) (hstands : Stands p e) (hok : ¬ PauseFails e) :
    Clean cfg (paused (s.after e) (WithStepping.apply cfg.context p e)) := by
  have htask := hp.1
  rcases hp.cases hstands with ⟨hsent, ⟨r, rfl⟩ | ⟨r, rfl⟩⟩ |
    ⟨hsent, ⟨r, deadline, alive, rfl⟩ | ⟨cancelled, rfl⟩⟩
  · rw [after_eq_self rfl]
    cases r with
    | cancelled => exact restored_of_nothing hsent
    | answered _ | timedOut _ | raised _ =>
      exact ⟨hrunning, hwas, htask, Or.inl ⟨Or.inr rfl, hsent⟩⟩
  · cases r with
    | sent =>
      have hafter : (s.after (.steppingSent .sent)).sent = [.stepping] := by
        rw [State.after, hsent]
        rfl
      exact ⟨hrunning, hwas, htask, Or.inr ⟨Or.inl rfl, hafter⟩⟩
    | raised text =>
      rw [after_eq_self rfl]
      exact restored_of_nothing hsent
    | cancelled =>
      rw [after_eq_self rfl]
      exact restored_of_nothing hsent
  · rw [after_eq_self rfl]
    cases r with
    | answered status =>
      simp only [WithStepping.apply]
      -- confirmed, out of time, or to be polled again
      split_ifs with hstep hdeadline
      · have hlevel : Level cfg s :=
          ⟨by rw [hwas, hrunning]; rfl, fun _ => by rw [hsent]; exact List.cons_ne_nil _ _,
            fun hstepping => absurd hrunning (by rw [hstepping]; decide)⟩
        have hpaused : ¬ Resumed s := by
          rw [Resumed, hsent]
          decide
        exact ⟨⟨hlevel.was, hlevel.some, hlevel.none⟩, inner_init, fun _ =>
          tracks_of_unsent hpaused (Or.inl rfl)⟩
      · rw [Bool.not_eq_true] at hstep
        exact absurd ⟨hstep, hdeadline⟩ hok
      · exact ⟨hrunning, hwas, htask, Or.inr ⟨Or.inr rfl, hsent⟩⟩
    | timedOut _ | raised _ | cancelled => exact absurd trivial hok
  · rw [after_eq_self rfl]
    cases cancelled with
    | true => exact absurd rfl hok
    | false => exact ⟨hrunning, hwas, htask, Or.inr ⟨Or.inl rfl, hsent⟩⟩

/-- A failure behind the command ends `pause()`. -/
theorem exited_of_pauseFails (cfg : Config) (p : WithStepping.State) (h : PauseFails e) :
    ∃ exit, (WithStepping.apply cfg.context p e).phase = .exited exit := by
  have htimeout (text : String) (alive : Bool) : ∃ exit,
      (WithStepping.pauseTimedOut cfg.context p text alive).phase = .exited exit := by
    rw [WithStepping.pauseTimedOut]
    split <;> exact ⟨_, rfl⟩
  cases e with
  | pausePolled r deadline alive =>
    cases r with
    | answered status =>
      obtain ⟨hstep, hdeadline⟩ := h
      simp only [WithStepping.apply, hstep, hdeadline]
      exact htimeout _ alive
    | timedOut text => exact htimeout _ alive
    | raised text => exact ⟨_, rfl⟩
    | cancelled => exact ⟨_, rfl⟩
  | pauseSlept cancelled =>
    have hslept : cancelled = true := h
    rw [hslept]
    exact ⟨_, rfl⟩
  | _ => exact h.elim

/-- A call that ends in the pause leaves the CPU as the pause has. -/
theorem doomed_paused (hrunning : cfg.running = true) (hsent : s.sent = [.stepping])
    (hexit : ∃ exit, q.phase = .exited exit) : Doomed cfg (paused s q) := by
  have hleft : ¬ Restored cfg s := by
    rw [Restored, hsent, hrunning]
    decide
  obtain ⟨exit, hexit⟩ := hexit
  rw [paused, hexit]
  cases exit with
  | cancelled => exact hleft
  | returned | bodyRaised | resumeRaised | steppingFailed _ _ => exact hleft

/-- A step of `pause()` that fails. -/
theorem doomed_paused_of_clean (hrunning : cfg.running = true) (hp : Pausing s p)
    (hstands : Stands p e) (hfails : PauseFails e) :
    Doomed cfg (paused (s.after e) (WithStepping.apply cfg.context p e)) := by
  have hsent : (s.after e).sent = [.stepping] := by
    rcases hp.cases hstands with ⟨-, ⟨r, rfl⟩ | ⟨r, rfl⟩⟩ |
      ⟨hsent, ⟨r, deadline, alive, rfl⟩ | ⟨cancelled, rfl⟩⟩
    · exact hfails.elim
    · exact hfails.elim
    · rw [after_eq_self rfl]
      exact hsent
    · rw [after_eq_self rfl]
      exact hsent
  exact doomed_paused hrunning hsent (exited_of_pauseFails cfg p hfails)

/-! ### The program counter -/

theorem read_of_exited {exit : WithStepping.Exit} (h : p.phase = .exited exit) :
    read cfg s p = leave cfg s p exit := by
  rw [read, h]

theorem read_of_going (h : ∀ exit, p.phase ≠ .exited exit) :
    read cfg s p = { s with phase := .reading p } := by
  rw [read]
  split
  next exit heq => exact absurd heq (h exit)
  · rfl

theorem going_of_shielding {b : BodyExit} (h : p.phase = .shielding b)
    (exit : WithStepping.Exit) : p.phase ≠ .exited exit := by
  rw [h]
  rintro ⟨⟩

/-- A context that is left otherwise than by a cancellation. -/
theorem Level.clean_leave (h : Level cfg s) {exit : WithStepping.Exit} (hne : exit ≠ .cancelled) :
    Clean cfg (leave cfg s p exit) := by
  cases exit with
  | returned => exact h.afterRead
  | cancelled => exact absurd rfl hne
  | bodyRaised | resumeRaised | steppingFailed _ _ => exact h.fails

theorem leave_cancelled_of_sent (h : unsent p.resumeTask = false) :
    leave cfg s p .cancelled = FrameSnapshot.exit s .cancelled := by
  rw [leave, h]
  rfl

theorem clean_reading (hlevel : Level cfg s) (hq : Inner cfg q)
    (ht : cfg.running = true → Tracks s q) : Clean cfg (read cfg s q) := by
  rw [read_of_going hq.going]
  exact ⟨⟨hlevel.was, hlevel.some, hlevel.none⟩, hq, fun hrunning =>
    ⟨(ht hrunning).before, (ht hrunning).behind, (ht hrunning).cancelled⟩⟩

theorem clean_read (hlevel : Level cfg s) (hp : Inner cfg p)
    (htracks : cfg.running = true → Tracks s p) (he : happens cfg p e = true)
    (hok : if s.wasStepping then e ≠ .resumeSent true else ¬ Abandons cfg s p e) :
    Clean cfg (read cfg (s.after e) (WithStepping.apply cfg.context p e)) := by
  have hawaits := awaits_of_happens hp he
  have hinner := inner_apply hp he
  -- a CPU that ran is not abandoned, and one that was stepping is not resumed
  have hkept (hrunning : cfg.running = true) : ¬ Abandons cfg s p e := by
    rwa [hlevel.was, hrunning] at hok
  have hsends (hstepping : cfg.running = false) : .resume ∉ sends e := by
    rw [hlevel.was, hstepping] at hok
    cases e with
    | resumeSent ok =>
      cases ok with
      | true => exact absurd rfl hok
      | false => simp [sends]
    | callerCancelled => simp [sends]
    | _ => exact resume_notMem_sends trivial
  have hlevel' : Level cfg (s.after e) := hlevel.after hsends
  have hcancelled (hresumed : cfg.running = true → Resumed (s.after e)) :
      Clean cfg (FrameSnapshot.exit (s.after e) .cancelled) := by
    cases hrunning : cfg.running with
    | true => exact (hresumed hrunning).restored hrunning
    | false => exact hlevel'.restored_of_stepping hrunning
  generalize WithStepping.apply cfg.context p e = q at hawaits hinner
  cases hawaits with
  | goesOn hplain htask htask' hgoing hcancels =>
    exact clean_reading hlevel' (hinner hgoing) fun hrunning => tracks_of_unsent
      (not_resumed_after hplain ((htracks hrunning).before (Or.inl htask))) (Or.inl htask')
  | @leaves _ _ exit hplain htask htask' hexit hcancels =>
    rw [read_of_exited hexit]
    by_cases hleft : exit = .cancelled
    · rw [hleft, leave_cancelled_of_sent (by rw [htask']; rfl)]
      refine hcancelled fun hrunning => absurd ?_ (hkept hrunning)
      exact (abandons_iff hplain).mpr (hcancels.mp hleft)
    · exact hlevel'.clean_leave hleft
  | bodyEnds htask hkeeps hphase htask' =>
    rw [after_eq_self rfl] at hlevel' ⊢
    exact clean_reading hlevel' (hinner (going_of_shielding hphase)) fun hrunning =>
      tracks_of_unsent ((htracks hrunning).before (Or.inl htask)) (Or.inr (by rw [htask']; rfl))
  | starts htask hphase htask' =>
    rw [after_eq_self rfl] at hlevel' ⊢
    exact clean_reading hlevel' (hinner (going_of_shielding hphase)) fun hrunning =>
      tracks_of_unsent ((htracks hrunning).before (Or.inr (by rw [htask]; rfl)))
        (Or.inr (by rw [htask']; rfl))
  | resumes hphase htask hphase' htask' =>
    exact clean_reading hlevel' (hinner (going_of_shielding hphase')) fun hrunning =>
      ⟨fun hbefore => absurd hbefore (not_before (Or.inl htask')),
        fun _ => resumed_after_resumeSent s, fun _ _ => resumed_after_resumeSent s⟩
  | @fails b _ hphase htask hphase' htask' =>
    rw [after_eq_self rfl] at hlevel' ⊢
    refine clean_reading hlevel' (hinner (going_of_shielding hphase')) fun hrunning =>
      ⟨fun _ => (htracks hrunning).before (Or.inr (by rw [htask]; rfl)), ?_, ?_⟩
    · rw [htask']
      rintro ⟨⟩
    · intro hcut _
      rw [hphase'] at hcut
      cases hcut
      exact absurd ⟨rfl, hphase⟩ (hkept hrunning)
  | confirms hplain hnone hcancels htask hphase' htask' =>
    rw [after_eq_self hnone] at hlevel' ⊢
    refine clean_reading hlevel' (hinner (going_of_shielding hphase')) fun hrunning => ?_
    have hresumed := (htracks hrunning).behind htask
    exact ⟨fun hbefore => absurd hbefore (not_before htask'), fun _ => hresumed,
      fun _ _ => hresumed⟩
  | @unshields b ok _ hphase htask hexit htask' =>
    rw [after_eq_self rfl] at hlevel' hcancelled ⊢
    rw [read_of_exited hexit]
    cases b with
    | cancelled =>
      have hsent : unsent q.resumeTask = false := by rw [htask']; rfl
      have hleft : leave cfg s q (WithStepping.shieldExit .cancelled ok) =
          FrameSnapshot.exit s .cancelled := by
        cases ok <;> exact leave_cancelled_of_sent hsent
      rw [hleft]
      exact hcancelled fun hrunning => (htracks hrunning).cancelled hphase ⟨ok, htask⟩
    | returned | raised => cases ok <;> exact hlevel'.clean_leave (by rintro ⟨⟩)
  | cutOff hphase hexit htask' =>
    rw [after_eq_self rfl] at hlevel' hcancelled ⊢
    rw [read_of_exited hexit, leave, htask']
    split
    next hunsent =>
      exact ⟨⟨hlevel'.was, hlevel'.some, hlevel'.none⟩,
        fun hrunning => (htracks hrunning).before (Or.inr hunsent)⟩
    next hsent =>
      refine hcancelled fun hrunning => ?_
      by_contra hnot
      exact hkept hrunning ⟨Bool.not_eq_true _ ▸ hsent, hnot⟩

/-- An outcome at the program counter that is not harmless. -/
theorem doomed_read_of_clean (hlevel : Level cfg s) (hp : Inner cfg p)
    (htracks : cfg.running = true → Tracks s p) (he : happens cfg p e = true)
    (hnot : ¬ if s.wasStepping then e ≠ .resumeSent true else ¬ Abandons cfg s p e) :
    Doomed cfg (read cfg (s.after e) (WithStepping.apply cfg.context p e)) := by
  have hawaits := awaits_of_happens hp he
  have hinner := inner_apply hp he
  generalize WithStepping.apply cfg.context p e = q at hawaits hinner
  cases hrunning : cfg.running with
  | true =>
    rw [hlevel.was, hrunning] at hnot
    have habandons : Abandons cfg s p e := Classical.not_not.mp hnot
    have hleft (hsends : ¬ Resumed (s.after e)) : ¬ Restored cfg (s.after e) :=
      not_restored_of_ne hrunning
        (List.append_ne_nil_of_left_ne_nil (hlevel.some hrunning) _) hsends
    cases hawaits with
    | goesOn hplain htask htask' hgoing hcancels =>
      exact absurd ((abandons_iff hplain).mp habandons) hcancels
    | leaves hplain htask htask' hexit hcancels =>
      obtain rfl := hcancels.mpr ((abandons_iff hplain).mp habandons)
      rw [read_of_exited hexit, leave_cancelled_of_sent (by rw [htask']; rfl)]
      exact hleft (not_resumed_after hplain ((htracks hrunning).before (Or.inl htask)))
    | @bodyEnds b _ htask hkeeps hphase htask' =>
      -- the context is going to resume the CPU
      cases b with
      | cancelled => exact absurd (hkeeps.symm.trans habandons) (by decide)
      | returned | raised => exact habandons.elim
    | starts htask hphase htask' => exact habandons.elim
    | resumes hphase htask hphase' htask' => exact absurd habandons.1 (by decide)
    | @fails b _ hphase htask hphase' htask' =>
      have hcut : b = .cancelled :=
        WithStepping.Phase.shielding.inj (hphase.symm.trans habandons.2)
      rw [after_eq_self rfl, read_of_going (going_of_shielding hphase')]
      exact ⟨hinner (going_of_shielding hphase'), Or.inl
        { running := hrunning
          some := hlevel.some hrunning
          notResumed := (htracks hrunning).before (Or.inr (by rw [htask]; rfl))
          phase := hphase'.trans (by rw [hcut])
          task := htask' }⟩
    | confirms hplain hnone hcancels htask hphase' htask' =>
      exact absurd ((abandons_iff hplain).mp habandons) hcancels
    | unshields hphase htask hexit htask' => exact habandons.elim
    | cutOff hphase hexit htask' =>
      rw [read_of_exited hexit, leave_cancelled_of_sent (by rw [htask']; exact habandons.1)]
      exact hleft (by rw [after_eq_self rfl]; exact habandons.2)
  | false =>
    rw [hlevel.was, hrunning] at hnot
    obtain rfl : e = .resumeSent true := Classical.not_not.mp hnot
    have hwrong : Wrong cfg (s.after (.resumeSent true)) :=
      ⟨hrunning, hlevel.was_of_stepping hrunning, resumed_after_resumeSent s⟩
    cases hawaits with
    | goesOn hplain | leaves hplain | confirms hplain => exact hplain.elim
    | resumes hphase htask hphase' htask' =>
      rw [read_of_going (going_of_shielding hphase')]
      exact ⟨hinner (going_of_shielding hphase'),
        Or.inr ⟨⟨hwrong.stepping, hwrong.was, hwrong.resumed⟩, Or.inl htask'⟩⟩

/-- What is doomed goes on to an exit, or ends there. -/
theorem doomed_read (hp : Inner cfg p) (he : happens cfg p e = true)
    (h : Lost cfg s p ∨ Wrong cfg s ∧
      (underway p.resumeTask = true ∨ ∃ ok, p.resumeTask = .finished ok)) :
    Doomed cfg (read cfg (s.after e) (WithStepping.apply cfg.context p e)) := by
  have hawaits := awaits_of_happens hp he
  have hinner := inner_apply hp he
  generalize WithStepping.apply cfg.context p e = q at hawaits hinner
  have hsent : ¬ (p.resumeTask = .absent ∨ unsent p.resumeTask = true) := by
    rcases h with hlost | ⟨-, htask⟩
    · exact not_before (Or.inr ⟨false, hlost.task⟩)
    · exact not_before htask
  cases hawaits with
  | goesOn hplain htask | leaves hplain htask | bodyEnds htask => exact absurd (Or.inl htask) hsent
  | starts htask | resumes _ htask | fails _ htask =>
    exact absurd (Or.inr (by rw [htask]; rfl)) hsent
  | confirms hplain hnone hcancels htask hphase' htask' =>
    rw [after_eq_self hnone, read_of_going (going_of_shielding hphase')]
    refine ⟨hinner (going_of_shielding hphase'), Or.inr ?_⟩
    rcases h with hlost | ⟨hwrong, -⟩
    · rw [hlost.task] at htask
      cases htask
    · exact ⟨⟨hwrong.stepping, hwrong.was, hwrong.resumed⟩, htask'⟩
  | @unshields b ok _ hphase htask hexit htask' =>
    rw [after_eq_self rfl, read_of_exited hexit]
    have hunsent : unsent q.resumeTask = false := by rw [htask']; rfl
    rcases h with hlost | ⟨hwrong, -⟩
    · obtain rfl : b = .cancelled :=
        WithStepping.Phase.shielding.inj (hphase.symm.trans hlost.phase)
      obtain rfl : ok = false := ResumeTask.finished.inj (htask.symm.trans hlost.task)
      change Doomed cfg (leave cfg s q .cancelled)
      rw [leave_cancelled_of_sent hunsent]
      exact not_restored_of_ne hlost.running hlost.some hlost.notResumed
    · cases hexit' : WithStepping.shieldExit b ok with
      | returned => exact hwrong.afterRead
      | cancelled =>
        rw [leave_cancelled_of_sent hunsent]
        exact hwrong.resumed.not_restored hwrong.stepping
      | bodyRaised | resumeRaised | steppingFailed _ _ => exact hwrong.fails
  | cutOff hphase hexit htask' =>
    have hunsent : unsent q.resumeTask = false := by
      rw [htask', ← Bool.not_eq_true]
      exact fun hunsent => hsent (Or.inr hunsent)
    rw [after_eq_self rfl, read_of_exited hexit, leave_cancelled_of_sent hunsent]
    rcases h with hlost | ⟨hwrong, -⟩
    · exact not_restored_of_ne hlost.running hlost.some hlost.notResumed
    · exact hwrong.resumed.not_restored hwrong.stepping

/-! ### The resume -/

/-- `resume()` goes on only behind its send, which makes the resume the last command. -/
theorem resumed_after {task : ResumeTask} (hopen : task = .sending ∨ Resumed s)
    (he : WithStepping.enabled cfg.context (resumeOnly task) e = true)
    (hok : e = .resumeSent false → Resumed s) : Resumed (s.after e) := by
  have hstands := stands_of_enabled he
  have hkeep (hsends : sends e = []) (hne : task ≠ .sending) : Resumed (s.after e) := by
    rw [after_eq_self hsends]
    exact hopen.resolve_left hne
  have hexited {phase : WithStepping.Phase} (hphase : (resumeOnly task).phase = phase)
      (hne : phase ≠ .exited .returned) : Resumed (s.after e) := absurd hphase.symm hne
  cases e with
  | resumeSent ok =>
    cases ok with
    | true => exact resumed_after_resumeSent s
    | false =>
      rw [after_eq_self rfl]
      exact hok rfl
  | resumeStarts | broadcastAwaited _ | resumePolled _ _ | resumeSlept =>
    have htask : task = _ := hstands
    exact hkeep rfl (by rw [htask]; rintro ⟨⟩)
  | probed _ | pauseProbed _ | steppingSent _ | pausePolled _ _ _ | pauseSlept _ | bodyDone _ =>
    exact hexited hstands (by rintro ⟨⟩)
  | shieldDone =>
    obtain ⟨b, _, hphase, -⟩ := hstands
    exact hexited hphase (by rintro ⟨⟩)
  | callerCancelled =>
    obtain ⟨b, hphase⟩ := hstands
    exact hexited hphase (by rintro ⟨⟩)

theorem clean_resumed (hrunning : cfg.running = true) (h : Resumed s) {phase : ResumeTask → Phase}
    (hphase : ∀ task, phase task = .recovering task ∨ phase task = .resuming task)
    (ok failed : Exit) (task : ResumeTask) : Clean cfg (resumed s phase ok failed task) := by
  have hne : s.sent ≠ [] := by
    intro hnone
    rw [Resumed, hnone] at h
    cases h
  have hstill (task : ResumeTask) : Clean cfg { s with phase := phase task } := by
    rcases hphase task with hphase | hphase <;> rw [hphase] <;> exact ⟨hrunning, hne, Or.inr h⟩
  have hleft (exit : Exit) : Clean cfg (FrameSnapshot.exit s exit) := h.restored hrunning
  cases task with
  | finished result =>
    cases result with
    | true => exact hleft ok
    | false => exact hleft failed
  | absent | scheduled | sending | awaitingBroadcast | polling | sleeping => exact hstill _

/-! ### One await -/

/-- The first answer tells the run state. -/
theorem clean_opened (hwas : s.wasStepping = false) (hsent : s.sent = []) {r : CallResult}
    (hanswer : ∀ status, r = .answered status →
      WithStepping.reportsStepping status = !cfg.running) :
    Clean cfg (apply cfg s (.opened r)) := by
  have hleft (exit : Exit) : Clean cfg (FrameSnapshot.exit s exit) := restored_of_nothing hsent
  cases r with
  | answered status =>
    have hsaid := hanswer status rfl
    cases hrunning : cfg.running with
    | true =>
      rw [hrunning] at hsaid
      simp only [apply, hsaid]
      exact ⟨hrunning, hwas, rfl, Or.inl ⟨Or.inl rfl, hsent⟩⟩
    | false =>
      rw [hrunning] at hsaid
      have hran (htrue : cfg.running = true) : False := by
        rw [hrunning] at htrue
        cases htrue
      simp only [apply, hsaid]
      refine ⟨⟨by rw [hrunning]; rfl, fun htrue => (hran htrue).elim, fun _ => ?_⟩, inner_init,
        fun htrue => (hran htrue).elim⟩
      change .resume ∉ s.sent
      rw [hsent]
      exact List.not_mem_nil
  | timedOut text => exact hleft .raised
  | raised text => exact hleft .raised
  | cancelled => exact hleft .cancelled

theorem absent_of_sending (hp : Inner cfg p)
    (he : happens cfg p (.steppingSent .cancelled) = true) : p.resumeTask = .absent := by
  have hphase : p.phase = .pauseSending := stands_of_happens he
  exact (hp.inv.entering (by rw [hphase]; rfl)).2.2

/-- A cancellation in the send of the pause ends the call. -/
theorem read_steppingCancelled (hp : Inner cfg p)
    (he : happens cfg p (.steppingSent .cancelled) = true) :
    read cfg s (WithStepping.apply cfg.context p (.steppingSent .cancelled)) =
      FrameSnapshot.exit s .cancelled := by
  rw [read_of_exited rfl]
  have htask : p.resumeTask = .absent := absent_of_sending hp he
  have hsame : (WithStepping.apply cfg.context p (.steppingSent .cancelled)).resumeTask =
      p.resumeTask := rfl
  exact leave_cancelled_of_sent (by rw [hsame, htask]; rfl)

/-- A call that is cancelled in the send of `cpu.stepping` has paused the CPU if it ran. -/
theorem restored_pauseCutOff_iff (hlevel : Level cfg s) (hp : Inner cfg p)
    (he : happens cfg p (.steppingSent .cancelled) = true) (hphase : s.phase = .reading p) :
    (∃ exit, (apply cfg s .pauseCutOff).phase = .exited exit) ∧
      (Restored cfg (apply cfg s .pauseCutOff) ↔ s.wasStepping = true) := by
  let written := s.after (.steppingSent .sent)
  have happly : apply cfg s .pauseCutOff = FrameSnapshot.exit written .cancelled := by
    rw [← read_steppingCancelled hp he]
    simp only [apply, advance, hphase]
    rfl
  have hlast : ¬ Resumed written := by
    rw [Resumed, show written.sent = s.sent ++ [.stepping] from rfl, List.getLast?_concat]
    decide
  have hlevel' : Level cfg written := hlevel.after fun _ => by simp [sends]
  rw [happly]
  exact ⟨⟨.cancelled, rfl⟩, hlevel'.restored_iff_or.trans (or_iff_left hlast)⟩

/-- A resume whose send fails changes nothing. -/
theorem not_restored_resumeFails (hrunning : cfg.running = true) (hne : s.sent ≠ [])
    (h : ¬ Resumed s) : ¬ Restored cfg (s.after (.resumeSent false)) := by
  rw [after_eq_self rfl]
  exact not_restored_of_ne hrunning hne h

/-- A cancellation in the last resume, or the recovery. -/
theorem restored_resumeCancelled_iff (hrunning : cfg.running = true) (hne : s.sent ≠ [])
    (written : Bool) :
    Restored cfg (apply cfg s (.resumeCancelled written)) ↔ written = true ∨ Resumed s := by
  cases written with
  | true =>
    have hresumed : Resumed (apply cfg s (.resumeCancelled true)) := List.getLast?_concat
    exact iff_of_true (hresumed.restored hrunning) (Or.inl rfl)
  | false => exact (restored_iff_resumed hrunning hne).trans (or_iff_right Bool.false_ne_true).symm

/-- What the task in the shield of a call that was cut off does with its command. -/
theorem restored_shieldSent_iff (hlevel : Level cfg s)
    (hnot : cfg.running = true → ¬ Resumed s) (ok : Bool) :
    Restored cfg (apply cfg s (.shieldSent ok)) ↔ ok = !s.wasStepping := by
  rw [hlevel.was, Bool.not_not]
  cases ok with
  | true =>
    have hresumed : Resumed (apply cfg s (.shieldSent true)) := List.getLast?_concat
    cases hrunning : cfg.running with
    | true => exact iff_of_true (hresumed.restored hrunning) rfl
    | false => exact iff_of_false (hresumed.not_restored hrunning) (by decide)
  | false =>
    cases hrunning : cfg.running with
    | true =>
      exact iff_of_false (not_restored_of_ne hrunning (hlevel.some hrunning) (hnot hrunning))
        (by decide)
    | false => exact iff_of_true (hlevel.restored_of_stepping hrunning) rfl

/-- Harmless outcomes keep a call in order. -/
theorem clean_apply {e : Event} (h : Clean cfg s) (he : enabled cfg s e = true)
    (hok : Harmless cfg s e) : Clean cfg (apply cfg s e) := by
  obtain ⟨phase, was, sent⟩ := s
  cases e with
  | opened r =>
    cases phase with
    | opening =>
      refine clean_opened h.1 h.2 fun status hr => ?_
      rw [hr] at he
      exact beq_iff_eq.mp he
    | _ => cases he
  | client e =>
    cases phase with
    | pausing p => exact clean_paused h.1 h.2.1 h.2.2 (stands_of_enabled he) hok
    | reading p => exact clean_read h.1 h.2.1 h.2.2 he hok
    | recovering task =>
      exact clean_resumed h.1 (resumed_after h.2.2 he hok) (fun task => Or.inl rfl) _ _ _
    | resuming task =>
      exact clean_resumed h.1 (resumed_after h.2.2 he hok) (fun task => Or.inr rfl) _ _ _
    | opening | registers | probing | cutOff | exited _ => cases he
  | pauseCutOff =>
    cases phase with
    | pausing p =>
      have hwas : was = true := hok
      exact absurd (hwas.symm.trans h.2.1) (by decide)
    | reading p =>
      obtain ⟨⟨exit, hexit⟩, hrestored⟩ := restored_pauseCutOff_iff h.1 h.2.1 he rfl
      rw [Clean, hexit]
      exact hrestored.mpr hok
    | _ => cases he
  | captured b =>
    have hlevel : Level cfg ⟨phase, was, sent⟩ := by
      cases phase with
      | registers | probing => exact h
      | _ => cases he
    cases b with
    | raised => exact hlevel.fails
    | cancelled => exact hlevel.restored_iff_or.mpr (hok rfl)
    | returned =>
      cases phase with
      | registers => exact hlevel.afterRegisters
      | probing => exact hlevel.finish
      | _ => cases he
  | resumeCancelled written =>
    cases phase with
    | recovering task | resuming task =>
      refine (restored_resumeCancelled_iff h.1 h.2.1 written).mpr ?_
      rcases h.2.2 with rfl | hresumed
      · exact hok
      · exact Or.inr hresumed
    | _ => cases he
  | shieldSent ok =>
    cases phase with
    | cutOff => exact (restored_shieldSent_iff h.1 h.2 ok).mpr hok
    | _ => cases he

/-- An outcome that is not harmless keeps the call from restoring the run state. -/
theorem doomed_apply_of_clean {e : Event} (h : Clean cfg s) (he : enabled cfg s e = true)
    (hnot : ¬ Harmless cfg s e) : Doomed cfg (apply cfg s e) := by
  obtain ⟨phase, was, sent⟩ := s
  cases e with
  | opened r => exact absurd trivial hnot
  | client e =>
    cases phase with
    | pausing p => exact doomed_paused_of_clean h.1 h.2.2 (stands_of_enabled he) (not_not.mp hnot)
    | reading p => exact doomed_read_of_clean h.1 h.2.1 h.2.2 he hnot
    | recovering task | resuming task =>
      obtain ⟨rfl, hnotResumed⟩ := Classical.not_imp.mp hnot
      have hafter := not_restored_resumeFails h.1 h.2.1 hnotResumed
      exact hafter
    | opening | registers | probing | cutOff | exited _ => cases he
  | pauseCutOff =>
    cases phase with
    | pausing p =>
      refine not_restored_of_ne h.1 (List.concat_ne_nil _ _) ?_
      change (sent ++ [Command.stepping]).getLast? ≠ some .resume
      rw [List.getLast?_concat]
      decide
    | reading p =>
      obtain ⟨⟨exit, hexit⟩, hrestored⟩ := restored_pauseCutOff_iff h.1 h.2.1 he rfl
      rw [Doomed, hexit]
      exact hrestored.not.mpr hnot
    | _ => cases he
  | captured b =>
    obtain ⟨rfl, hnone⟩ := Classical.not_imp.mp hnot
    have hlevel : Level cfg ⟨phase, was, sent⟩ := by
      cases phase with
      | registers | probing => exact h
      | _ => cases he
    exact hlevel.restored_iff_or.not.mpr hnone
  | resumeCancelled written =>
    cases phase with
    | recovering task | resuming task =>
      cases task with
      | sending => exact (restored_resumeCancelled_iff h.1 h.2.1 written).not.mpr hnot
      | _ => exact absurd trivial hnot
    | _ => cases he
  | shieldSent ok =>
    cases phase with
    | cutOff => exact (restored_shieldSent_iff h.1 h.2 ok).not.mpr hnot
    | _ => cases he

theorem doomed_apply {e : Event} (h : Doomed cfg s) (he : enabled cfg s e = true) :
    Doomed cfg (apply cfg s e) := by
  obtain ⟨phase, was, sent⟩ := s
  cases e with
  | opened r =>
    cases phase with
    | opening => exact h.elim
    | _ => cases he
  | client e =>
    cases phase with
    | reading p => exact doomed_read h.1 he h.2
    | pausing _ | recovering _ | resuming _ => exact h.elim
    | opening | registers | probing | cutOff | exited _ => cases he
  | pauseCutOff =>
    cases phase with
    | pausing p => exact h.elim
    | reading p =>
      -- the pause of a context is over before its resume is sent
      have htask : p.resumeTask = .absent := absent_of_sending h.1 he
      rcases h.2 with hlost | ⟨-, hbehind⟩
      · cases hlost.task.symm.trans htask
      · exact absurd (Or.inl htask) (not_before hbehind)
    | _ => cases he
  | captured b =>
    have hwrong : Wrong cfg ⟨phase, was, sent⟩ := by
      cases phase with
      | registers | probing => exact h
      | _ => cases he
    cases b with
    | raised => exact hwrong.fails
    | cancelled => exact hwrong.resumed.not_restored hwrong.stepping
    | returned =>
      cases phase with
      | registers => exact hwrong.afterRegisters
      | probing => exact hwrong.finish
      | _ => cases he
  | resumeCancelled written =>
    cases phase with
    | recovering _ | resuming _ => exact h.elim
    | _ => cases he
  | shieldSent ok =>
    cases phase with
    | cutOff => exact h.elim
    | _ => cases he

end Steps

/-! ## Runs -/

/-- A call either has had harmless outcomes only and is in order, or it is not going to restore the
run state. -/
theorem clean_or_doomed {cfg : Config} {s : State} (h : (machine cfg).Reachable init s) :
    ((machine cfg).Reaches (Harmless cfg) init s ∧ Clean cfg s) ∨ Doomed cfg s := by
  refine Machine.Reachable.invariant (P := fun s =>
    ((machine cfg).Reaches (Harmless cfg) init s ∧ Clean cfg s) ∨ Doomed cfg s)
    (Or.inl ⟨.refl, clean_init⟩) (fun t e u ht hstep => ?_) h
  obtain ⟨he, rfl⟩ := machine_step_eq_some_iff.mp hstep
  -- the first outcome that does harm parts the one kind of call from the other
  rcases ht with ⟨hreaches, hclean⟩ | hdoomed
  · by_cases hok : Harmless cfg t e
    · exact Or.inl ⟨.tail hreaches hok hstep, clean_apply hclean he hok⟩
    · exact Or.inr (doomed_apply_of_clean hclean he hok)
  · exact Or.inr (doomed_apply hdoomed he)

/-- In a call whose outcomes are all harmless, everything is in order. -/
theorem clean_of_reaches {cfg : Config} {s : State}
    (h : (machine cfg).Reaches (Harmless cfg) init s) : Clean cfg s := by
  refine Machine.Reaches.invariant clean_init (fun t e u ht hok hstep => ?_) h
  obtain ⟨he, rfl⟩ := machine_step_eq_some_iff.mp hstep
  exact clean_apply ht he hok

/-- A call that is over has commanded the CPU back to its run state if its outcomes were all
harmless, and only then. -/
theorem restored_iff (cfg : Config) (s : State) (exit : Exit)
    (h : (machine cfg).Reachable init s) (hexit : s.phase = .exited exit) :
    Restored cfg s ↔ (machine cfg).Reaches (Harmless cfg) init s := by
  have hclean : Clean cfg s → Restored cfg s := fun hclean => by
    rw [Clean, hexit] at hclean
    exact hclean
  constructor
  · intro hrestored
    rcases clean_or_doomed h with ⟨hreaches, -⟩ | hdoomed
    · exact hreaches
    · rw [Doomed, hexit] at hdoomed
      exact absurd hrestored hdoomed
  · exact fun hreaches => hclean (clean_of_reaches hreaches)

/-- A running CPU, the registers, and no probes. -/
def runningConfig : Config where
  pid := none
  hasObserver := false
  wantRegisters := true
  wantProbes := false
  running := true

/-- The CPU is paused, and the program counter is read. -/
def pausedRun : List Event :=
  [.opened (.answered (WithStepping.statusOf false)),
   .client (.pauseProbed (.answered (WithStepping.statusOf false))),
   .client (.steppingSent .sent),
   .client (.pausePolled (.answered (WithStepping.statusOf true)) false true),
   .client (.probed (.answered (WithStepping.statusOf true))),
   .client (.bodyDone .returned)]

/-- Reading the registers fails, and the CPU is resumed. -/
def recoveredRun : List Event :=
  pausedRun ++ [.captured .raised, .client (.resumeSent true),
    .client (.resumePolled (.answered (WithStepping.statusOf false)) false)]

theorem restored_recoveredRun :
    ∃ s, (machine runningConfig).run init recoveredRun = some s ∧
      (Restored runningConfig s ↔
        (machine runningConfig).Reaches (Harmless runningConfig) init s) :=
  ⟨_, rfl, restored_iff runningConfig _ .raised (Machine.reachable_of_run recoveredRun rfl) rfl⟩

/-- A call that is cancelled while it reads the registers leaves the CPU paused. -/
theorem not_restored_cancelledRun :
    ¬ ∀ (cfg : Config) (s : State) (exit : Exit), (machine cfg).Reachable init s →
      s.phase = .exited exit → Restored cfg s := by
  intro h
  have hrestored := h runningConfig _ .cancelled
    (Machine.reachable_of_run (pausedRun ++ [.captured .cancelled]) rfl) rfl
  revert hrestored
  decide

end FrameSnapshot
