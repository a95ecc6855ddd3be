import PpssppDfx.Scan.Narrow

/-!
# Concurrent narrow calls

A narrow call takes the candidate list before it waits for the lock of the session, and
writes what it kept of it when it is done. If another call wrote in between, what that call
eliminated comes back, unless this call eliminates it too.

## Main results

* `composed_of_reaches` — the candidates are those that no call eliminated, in runs where a
  call keeps nothing that was eliminated since it took the list
* `undone_elimination` — a run in which two calls leave a candidate that one eliminated
-/

set_option autoImplicit false

namespace Scan

open Semantics Function

/-- The candidates that are left when the narrow calls filter one after the other. -/
def Registry.sequential (s : Registry) (object : ObjectId) : List ℕ :=
  (s.passes object).foldl (fun candidates pass => candidates.filter fun a => ¬ pass.Eliminates a)
    (s.first object)

/-- Every entry has the candidates that its narrow calls leave one after the other. -/
def Composed (s : Registry) : Prop :=
  ∀ object a, a ∈ (s.objects object).addresses ↔ a ∈ s.sequential object

/-- A call that writes keeps no candidate that was eliminated since it took the list. -/
def WritesSurvivors (s : Registry) (e : NarrowLabel) : Prop :=
  match e with
  | .leave i => ∀ c ∈ s.calls i, ∀ pass ∈ (s.passes c.object).drop c.seen,
      ∀ a ∈ c.phase.out, ¬ pass.Eliminates a
  | _ => True

instance (s : Registry) (e : NarrowLabel) : Decidable (WritesSurvivors s e) := by
  unfold WritesSurvivors
  split <;> infer_instance

/-- What remains when calls filter one after the other is what none of them eliminates. -/
theorem mem_foldl_eliminates {passes : List Pass} {first : List ℕ} {a : ℕ} :
    a ∈ passes.foldl (fun candidates pass => candidates.filter fun a => ¬ pass.Eliminates a)
        first ↔ a ∈ first ∧ ∀ pass ∈ passes, ¬ pass.Eliminates a := by
  induction passes generalizing first with
  | nil => simp
  | cons pass passes ih =>
    rw [List.foldl_cons, ih, List.mem_filter, decide_eq_true_iff, List.forall_mem_cons, and_assoc]

/-! ## Calls -/

/-- The candidates that a call has kept or has still to read. -/
def NarrowPhase.mentioned : NarrowPhase → List ℕ
  | entering => []
  | reading runs out => out ++ runs.flatMap (·.members)
  | single addr addrs runs out => out ++ addr :: addrs ++ runs.flatMap (·.members)

theorem mentioned_singly (out : List ℕ) (runs : List Run) (addrs : List ℕ) :
    (singly out runs addrs).mentioned = out ++ addrs ++ runs.flatMap (·.members) := by
  cases addrs with
  | nil => rw [List.append_nil]; rfl
  | cons addr addrs => rfl

/-- A read adds no candidate that the call did not have. -/
theorem mem_mentioned_of_readEnds {c : Narrow} {blob : Option Bytes} {phase : NarrowPhase} {a : ℕ}
    (h : c.readEnds blob = some phase) (ha : a ∈ phase.mentioned) : a ∈ c.phase.mentioned := by
  unfold Narrow.readEnds at h
  split at h
  · exact nomatch h
  · exact nomatch h
  -- a run that cannot be read is put back, to be read address by address
  · rename_i run runs out hphase
    rw [hphase, NarrowPhase.mentioned, List.flatMap_cons]
    cases blob with
    | none =>
      obtain rfl := Option.some.inj h
      rw [mentioned_singly] at ha
      simpa [List.append_assoc] using ha
    | some blob =>
      obtain rfl := Option.some.inj h
      simp only [NarrowPhase.mentioned, List.mem_append, List.mem_filter] at ha ⊢
      tauto
  · rename_i addr addrs runs out hphase
    rw [hphase, NarrowPhase.mentioned]
    cases blob with
    | none =>
      obtain rfl := Option.some.inj h
      rw [mentioned_singly] at ha
      simp only [List.mem_append, List.mem_cons] at ha ⊢
      tauto
    | some raw =>
      obtain rfl := Option.some.inj h
      rw [mentioned_singly] at ha
      split at ha <;> simp only [List.mem_append, List.mem_cons, List.not_mem_nil] at ha ⊢ <;> tauto

/-- What holds of a call under way: the list that it took had the candidates that no call
had eliminated by then, and it keeps nothing else. -/
structure CallInv (s : Registry) (c : Narrow) : Prop where
  object : c.object < s.nextObject
  seen : c.seen ≤ (s.passes c.object).length
  read : ∀ a, a ∈ c.read ↔ a ∈ s.first c.object ∧
    ∀ pass ∈ (s.passes c.object).take c.seen, ¬ pass.Eliminates a
  mentioned : ∀ a ∈ c.phase.mentioned, a ∈ c.read

structure ComposeInv (s : Registry) : Prop where
  composed : Composed s
  handles : ∀ entry ∈ s.handles, entry.2 < s.nextObject
  calls : ∀ i c, s.calls i = some c → CallInv s c

section Steps

variable {s t : Registry} {c : Narrow} {object : ObjectId} {pass : Pass} {i : CallId}

/-- Later writes to the entry do not change what a call has seen of it. -/
theorem CallInv.frame (h : CallInv s c) (hnext : s.nextObject ≤ t.nextObject)
    (hfirst : t.first c.object = s.first c.object)
    (hpasses : s.passes c.object <+: t.passes c.object) : CallInv t c where
  object := Nat.lt_of_lt_of_le h.object hnext
  seen := h.seen.trans hpasses.length_le
  read a := by
    obtain ⟨more, hmore⟩ := hpasses
    rw [hfirst, ← hmore, List.take_append_of_le_length h.seen]
    exact h.read a
  mentioned := h.mentioned

/-- A call goes on with what it read. -/
theorem CallInv.setPhase {phase : NarrowPhase} (h : CallInv s c)
    (hphase : ∀ a ∈ phase.mentioned, a ∈ c.read) : CallInv s { c with phase := phase } where
  object := h.object
  seen := h.seen
  read := h.read
  mentioned := hphase

theorem composed_of_eq (h : Composed s) (hobjects : t.objects = s.objects)
    (hfirst : t.first = s.first) (hpasses : t.passes = s.passes) : Composed t := by
  intro object a
  rw [Registry.sequential, hobjects, hfirst, hpasses]
  exact h object a

/-- Steps that change only the calls and the locks, and drop handles. -/
theorem ComposeInv.of_eq (h : ComposeInv s) (hobjects : t.objects = s.objects)
    (hfirst : t.first = s.first) (hpasses : t.passes = s.passes)
    (hnext : t.nextObject = s.nextObject) (hhandles : ∀ entry ∈ t.handles, entry ∈ s.handles)
    (hcalls : ∀ j c, t.calls j = some c → CallInv s c) : ComposeInv t where
  composed := composed_of_eq h.composed hobjects hfirst hpasses
  handles entry hentry := hnext ▸ h.handles entry (hhandles entry hentry)
  calls j c hc := (hcalls j c hc).frame (Nat.le_of_eq hnext.symm) (congrFun hfirst _)
    (by rw [hpasses])

/-- A write keeps the entries composed if it eliminates, of what is left, what it says. -/
theorem composed_write (h : Composed s)
    (hkept : ∀ a, a ∈ pass.kept ↔ a ∈ s.sequential object ∧ ¬ pass.Eliminates a) :
    Composed (s.write object pass) := by
  intro other a
  unfold Registry.sequential Registry.write
  by_cases hother : other = object
  · subst hother
    simp only [update_self, List.foldl_append, List.foldl_cons, List.foldl_nil]
    rw [hkept a, List.mem_filter, decide_eq_true_iff]
    rfl
  · simp only [update_of_ne hother]
    exact h other a

theorem passes_write (s : Registry) (object other : ObjectId) (pass : Pass) :
    s.passes other <+: (s.write object pass).passes other := by
  by_cases hother : other = object
  · subst hother
    exact ⟨[pass], by simp [Registry.write]⟩
  · exact ⟨[], by simp [Registry.write, update_of_ne hother]⟩

theorem ComposeInv.write (h : ComposeInv s)
    (hkept : ∀ a, a ∈ pass.kept ↔ a ∈ s.sequential object ∧ ¬ pass.Eliminates a) :
    ComposeInv (s.write object pass) where
  composed := composed_write h.composed hkept
  handles := h.handles
  calls i c hc := (h.calls i c hc).frame (Nat.le_refl _) rfl (passes_write s object c.object pass)

theorem passes_release (s : Registry) (sessionId : String) (i : CallId) :
    (s.release sessionId i).passes = s.passes := by
  unfold Registry.release
  split <;> rfl

theorem CallInv.release (h : CallInv s c) (sessionId : String) (i : CallId) :
    CallInv (s.release sessionId i) c := by
  unfold Registry.release
  split
  · exact h.frame (Nat.le_refl _) rfl (List.prefix_refl _)
  · exact h

theorem ComposeInv.release (h : ComposeInv s) (sessionId : String) (i : CallId) :
    ComposeInv (s.release sessionId i) := by
  unfold Registry.release
  split
  · exact h.of_eq rfl rfl rfl rfl (fun _ hentry => hentry) h.calls
  · exact h

/-- A call that is over has no invariant to keep. -/
theorem ComposeInv.forget (h : ComposeInv s) (i : CallId) :
    ComposeInv { s with calls := update s.calls i none } := by
  refine h.of_eq rfl rfl rfl rfl (fun _ hentry => hentry) fun j c hc => ?_
  by_cases hji : j = i
  · subst hji
    simp at hc
  · dsimp only at hc
    rw [update_of_ne hji] at hc
    exact h.calls j c hc

theorem ComposeInv.setCall (h : ComposeInv s) (hcall : CallInv s c)
    (locks : String → Option CallId) :
    ComposeInv { s with calls := update s.calls i (some c), locks := locks } := by
  refine h.of_eq rfl rfl rfl rfl (fun _ hentry => hentry) fun j c' hc' => ?_
  by_cases hji : j = i
  · subst hji
    obtain rfl : c = c' := by simpa using hc'
    exact hcall
  · dsimp only at hc'
    rw [update_of_ne hji] at hc'
    exact h.calls j c' hc'

theorem ComposeInv.register (h : ComposeInv s) (sessionId handle : String) (width : Width)
    (candidates : List ℕ) : ComposeInv (s.register sessionId handle width candidates) where
  composed other a := by
    unfold Registry.sequential Registry.register
    by_cases hother : other = s.nextObject
    · subst hother
      simp
    · simp only [update_of_ne hother]
      exact h.composed other a
  handles entry hentry := by
    rw [Registry.handles_register] at hentry
    rcases mem_insertEvicting hentry with hold | rfl
    · exact Nat.lt_succ_of_lt (h.handles entry hold)
    · exact Nat.lt_succ_self _
  calls i c hc := by
    have hcall := h.calls i c hc
    -- the new entry is none that a call works on
    have hne : c.object ≠ s.nextObject := Nat.ne_of_lt hcall.object
    exact hcall.frame (Nat.le_succ _) (update_of_ne hne _ _)
      (by simp [Registry.register, update_of_ne hne])

/-- A handle that is accepted stands for an entry. -/
theorem lt_nextObject_of_validateNarrow (h : ComposeInv s) {sessionId handle : String}
    {value : Option ℤ} {target : ℤ}
    (hvalid : s.validateNarrow sessionId handle value = .ok (object, target)) :
    object < s.nextObject :=
  h.handles (handle, object) (mem_of_lookup (Registry.validateNarrow_spec hvalid).1)

theorem ComposeInv.beginNarrow (h : ComposeInv s) (i : CallId) (sessionId handle : String)
    (value : Option ℤ) (op : Op) : ComposeInv (s.beginNarrow i sessionId handle value op) := by
  unfold Registry.beginNarrow
  split
  · exact h
  · rename_i object value hvalid
    have hmem : ∀ a, a ∈ (s.objects object).addresses ↔ a ∈ s.first object ∧
        ∀ pass ∈ s.passes object, ¬ pass.Eliminates a := fun a => by
      rw [h.composed object a, Registry.sequential, mem_foldl_eliminates]
    split
    · rename_i hempty
      refine h.write fun a => ?_
      -- without candidates the call writes at once, and eliminates nothing
      have hnone : a ∉ s.sequential object := by
        rw [← h.composed object a, hempty]
        exact List.not_mem_nil
      simp [hnone]
    · refine h.setCall ⟨lt_nextObject_of_validateNarrow h hvalid, Nat.le_refl _, fun a => ?_,
        fun a ha => absurd ha List.not_mem_nil⟩ s.locks
      rw [List.take_length]
      exact hmem a

/-- A call that writes what survived keeps the entries composed. -/
theorem ComposeInv.leave (h : ComposeInv s) (hc : CallInv s c) {out : List ℕ}
    (hphase : c.phase = .reading [] out)
    (hsurvive : ∀ pass ∈ (s.passes c.object).drop c.seen, ∀ a ∈ out, ¬ pass.Eliminates a) :
    ComposeInv (s.write c.object ⟨c.read, out⟩) := by
  refine h.write fun a => ?_
  rw [Registry.sequential, mem_foldl_eliminates]
  have hsplit : ∀ pass, pass ∈ s.passes c.object ↔
      pass ∈ (s.passes c.object).take c.seen ∨ pass ∈ (s.passes c.object).drop c.seen := by
    intro pass
    rw [← List.mem_append, List.take_append_drop]
  -- what survived the own pass survived those before it, and by the guard those meanwhile
  constructor
  · intro hout
    have hread : a ∈ c.read := hc.mentioned a (by rw [hphase]; exact List.mem_append_left _ hout)
    obtain ⟨hfirst, hbefore⟩ := (hc.read a).mp hread
    refine ⟨⟨hfirst, fun pass hpass => ?_⟩, fun heliminates => heliminates.2 hout⟩
    rcases (hsplit pass).mp hpass with hpass | hpass
    · exact hbefore pass hpass
    · exact hsurvive pass hpass a hout
  · rintro ⟨⟨hfirst, hall⟩, hkept⟩
    have hread : a ∈ c.read :=
      (hc.read a).mpr ⟨hfirst, fun pass hpass => hall pass ((hsplit pass).mpr (Or.inl hpass))⟩
    exact Classical.byContradiction fun hout => hkept ⟨hread, hout⟩

theorem ComposeInv.drop (h : ComposeInv s) (sessionId handle : String) :
    ComposeInv (s.drop sessionId handle) := by
  unfold Registry.drop
  split
  · exact h
  · split
    · exact h
    · exact h.of_eq rfl rfl rfl rfl (fun _ hentry => List.mem_of_mem_filter hentry) h.calls

/-- Every step under the guard keeps the invariant. -/
theorem ComposeInv.step {e : NarrowLabel} (h : ComposeInv s) (hok : WritesSurvivors s e)
    (hstep : narrowing.step s e = some t) : ComposeInv t := by
  cases e with
  | initial sessionId handle width candidates =>
    obtain rfl := Option.some.inj hstep
    exact h.register sessionId handle width candidates
  | narrow i sessionId handle value op =>
    simp only [narrowing, narrowStep] at hstep
    split at hstep
    · obtain rfl := Option.some.inj hstep
      exact h.beginNarrow i sessionId handle value op
    · exact nomatch hstep
  | enter i =>
    simp only [narrowing, narrowStep] at hstep
    split at hstep
    · rename_i c hc
      split at hstep
      · obtain rfl := Option.some.inj hstep
        refine h.setCall ((h.calls i c hc).setPhase fun a ha => ?_) _
        rw [NarrowPhase.mentioned, members_mergeRuns] at ha
        exact ha
      · exact nomatch hstep
    · exact nomatch hstep
  | read i blob =>
    simp only [narrowing, narrowStep] at hstep
    split at hstep
    · rename_i c hc
      split at hstep
      · rename_i phase hends
        obtain rfl := Option.some.inj hstep
        have hcall := h.calls i c hc
        exact h.setCall (hcall.setPhase fun a ha =>
          hcall.mentioned a (mem_mentioned_of_readEnds hends ha)) s.locks
      · exact nomatch hstep
    · exact nomatch hstep
  | leave i =>
    simp only [narrowing, narrowStep] at hstep
    split at hstep
    · rename_i c hc
      split at hstep
      · rename_i out hphase
        obtain rfl := Option.some.inj hstep
        -- the call is over and its lock is free, before it writes
        have hforgot : CallInv { s with calls := update s.calls i none } c :=
          (h.calls i c hc).frame (Nat.le_refl _) rfl (List.prefix_refl _)
        have hcall := hforgot.release c.sessionId i
        refine ((h.forget i).release c.sessionId i).leave hcall hphase fun pass hpass a ha => ?_
        rw [passes_release] at hpass
        exact hok c hc pass hpass a (by rw [hphase]; exact ha)
      · exact nomatch hstep
    · exact nomatch hstep
  | abort i =>
    simp only [narrowing, narrowStep] at hstep
    split at hstep
    · rename_i c hc
      obtain rfl := Option.some.inj hstep
      exact (h.forget i).release c.sessionId i
    · exact nomatch hstep
  | drop sessionId handle =>
    obtain rfl := Option.some.inj hstep
    exact h.drop sessionId handle

theorem composeInv_emptyRegistry : ComposeInv emptyRegistry where
  composed object a := by simp [emptyRegistry, Registry.sequential]
  handles entry hentry := absurd hentry List.not_mem_nil
  calls i c hc := nomatch hc

/-- In every run in which a call that writes keeps no candidate that was eliminated since
it took the list, the candidates of every entry are those that its narrow calls leave one
after the other. -/
theorem composed_of_reaches (h : narrowing.Reaches WritesSurvivors emptyRegistry s) : Composed s :=
  (h.invariant composeInv_emptyRegistry fun _ _ _ hinv hok hstep => hinv.step hok hstep).composed

end Steps

/-- Two calls on one handle, each with the whole memory of its candidates: the first keeps
what equals one, the second what is less. -/
def narrowInTurn : List NarrowLabel :=
  [.initial "psp-1" "a1b2c3d4" .u8 [16, 17], .narrow 0 "psp-1" "a1b2c3d4" (some 1) .eq, .enter 0,
   .read 0 (some [1, 0]), .leave 0, .narrow 1 "psp-1" "a1b2c3d4" (some 1) .lt, .enter 1,
   .read 1 (some [1]), .leave 1]

theorem composed_narrowInTurn :
    ∃ s, narrowing.run emptyRegistry narrowInTurn = some s ∧ (s.objects 0).addresses = [] ∧
      Composed s := by
  refine ⟨_, rfl, rfl, ?_⟩
  have hrun : narrowing.Reaches WritesSurvivors emptyRegistry _ :=
    Machine.reaches_of_runWith narrowInTurn rfl
  exact composed_of_reaches hrun

/-- The second call arrives while the first one still waits for the lock. -/
def narrowAtOnce : List NarrowLabel :=
  [.initial "psp-1" "a1b2c3d4" .u8 [16, 17], .narrow 0 "psp-1" "a1b2c3d4" (some 1) .eq,
   .narrow 1 "psp-1" "a1b2c3d4" (some 1) .lt, .enter 0, .read 0 (some [1, 0]), .leave 0,
   .enter 1, .read 1 (some [1, 0]), .leave 1]

/-- The first call eliminates the candidate 17, and the second call brings it back. -/
theorem undone_elimination : ∃ s, narrowing.Reachable emptyRegistry s ∧ ¬ Composed s := by
  refine ⟨_, Machine.reachable_of_run narrowAtOnce rfl, fun hcomposed => ?_⟩
  have hkept := (hcomposed 0 17).mp (by decide)
  exact absurd hkept (by decide)

end Scan
