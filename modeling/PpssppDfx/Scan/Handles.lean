import PpssppDfx.Memory.Diff
import PpssppDfx.Scan.Narrow

/-!
# The handles of scans and snapshots

Value scans and memory snapshots are kept under handles, in two tables that all sessions
share. A handle is used in the session that made it, and disappears by an operation of that
session or by eviction, when it is the oldest of a full table. A handle has eight hexadecimal
digits that are drawn at random; a new one is not compared with those in the table, and takes
the place of an equal one.

## Main definitions

* `Scan.Kept` — what is live under a handle stays, but for its owner and for eviction
* `Scan.handling` — the machine of both tables
* `Scan.DrawsFree` — a new handle is not that of another session

## Main results

* `effect_of_step` — what a step of the value scans does to the table
* `ownerOnly_iff` — the tables are bounded, and when a step respects the owners of handles
-/

set_option autoImplicit false

namespace Scan

open Semantics Function Diff

/-! ## Live handles -/

/-- The entry that a handle is live with. -/
def Registry.live (s : Registry) (handle : String) : Option ValueSession :=
  (s.handles.lookup handle).map s.objects

/-- The session that takes a step. -/
def Registry.actor (s : Registry) : NarrowLabel → Option String
  | .initial sessionId _ _ _ | .narrow _ sessionId _ _ _ | .drop sessionId _ => some sessionId
  | .enter i | .read i _ | .leave i | .abort i => (s.calls i).map Narrow.sessionId

/-- The session that takes a step. -/
def snapshotActor : DiffLabel → String
  | .snapshot _ snapshot => snapshot.sessionId
  | .compare sessionId _ _ | .drop sessionId _ => sessionId

/-- What is live under a handle stays as it is, unless the step is one of its owner or evicts
it. -/
def Kept {α : Type} (owner : α → String) (actor : Option String) (evicted : String → Prop)
    (live live' : String → Option α) : Prop :=
  ∀ handle a, live handle = some a →
    live' handle = some a ∨ actor = some (owner a) ∨ evicted handle

/-- The step makes a handle, and evicts this one as the oldest of a full table. -/
def Registry.Evicts (s : Registry) (label : NarrowLabel) (handle : String) : Prop :=
  match label with
  | .initial _ _ _ _ => IsOldest maxValueSessions s.handles handle
  | _ => False

/-- The step makes a handle, and evicts this one as the oldest of a full table. -/
def SnapshotEvicts (t : Snapshots) (label : DiffLabel) (handle : String) : Prop :=
  match label with
  | .snapshot _ _ => IsOldest maxSnapshots t.entries handle
  | _ => False

/-- Value scans and snapshots of one server process, in any order. -/
def handling : Machine (Registry × Snapshots) (NarrowLabel ⊕ DiffLabel) :=
  narrowing.beside diffing

/-- The contents of live handles change or disappear only by a step of their owner, or by
eviction as the oldest. -/
def OwnerOnly (s s' : Registry × Snapshots) : NarrowLabel ⊕ DiffLabel → Prop
  | .inl label =>
    Kept ValueSession.sessionId (s.1.actor label) (s.1.Evicts label) s.1.live s'.1.live ∧
      s'.2 = s.2
  | .inr label =>
    s'.1 = s.1 ∧
      Kept Snapshot.sessionId (some (snapshotActor label)) (SnapshotEvicts s.2 label)
        s.2.get s'.2.get

/-- A new handle is not one that is live in another session and is not evicted for it. -/
def DrawsFree (s : Registry × Snapshots) : NarrowLabel ⊕ DiffLabel → Prop
  | .inl (.initial sessionId handle width candidates) => ∀ a, s.1.live handle = some a →
    a.sessionId = sessionId ∨ s.1.Evicts (.initial sessionId handle width candidates) handle
  | .inr (.snapshot handle snapshot) => ∀ a, s.2.get handle = some a →
    a.sessionId = snapshot.sessionId ∨ SnapshotEvicts s.2 (.snapshot handle snapshot) handle
  | _ => True

/-! ## New handles -/

/-- An insertion into a table of live entries respects their owners exactly when the new key
takes the place of none of another owner. The entries may be read through `f` before and
through `f'` after it, if that makes no difference to those in the table. -/
theorem kept_insertEvicting_iff {α β : Type} {owner : α → String} {actor : String} {cap : ℕ}
    {table : List (String × β)} {value : β} (handle : String) (f f' : β → α)
    (hlength : table.length ≤ cap) (hvalue : owner (f' value) = actor)
    (hsame : ∀ other b, table.lookup other = some b → f' b = f b) :
    Kept owner (some actor) (IsOldest cap table) (fun other => (table.lookup other).map f)
        (fun other => ((insertEvicting cap table handle value).lookup other).map f') ↔
      ∀ a, (table.lookup handle).map f = some a → owner a = actor ∨ IsOldest cap table handle := by
  constructor
  · intro hkept a ha
    rcases hkept handle a ha with hlive | hactor | hevicted
    · -- what is live under the handle is the new entry
      dsimp only at hlive
      rw [lookup_insertEvicting_self, Option.map_some] at hlive
      exact Or.inl (Option.some.inj hlive ▸ hvalue)
    · exact Or.inl (Option.some.inj hactor).symm
    · exact Or.inr hevicted
  · intro hfree other a ha
    by_cases hevicted : IsOldest cap table other
    · exact Or.inr (Or.inr hevicted)
    by_cases hother : other = handle
    · subst hother
      exact Or.inr (Or.inl (congrArg some ((hfree a ha).resolve_right hevicted).symm))
    · obtain ⟨b, hb, rfl⟩ := Option.map_eq_some_iff.mp ha
      refine Or.inl (Option.map_eq_some_iff.mpr ⟨b, ?_, hsame other b hb⟩)
      rw [lookup_insertEvicting_of_ne hlength hother hevicted, hb]

/-! ## What a step of the value scans does -/

section Steps

variable {s s' : Registry} {label : NarrowLabel} {c : Narrow} {i : CallId} {object : ObjectId}

/-- The call works on an entry of its own session. -/
def Narrow.OwnsIn (c : Narrow) (s : Registry) : Prop :=
  c.object < s.nextObject ∧ (s.objects c.object).sessionId = c.sessionId

/-- The table is bounded, its entries have been made, and calls work on entries of their own
sessions. -/
structure Custodial (s : Registry) : Prop where
  bounded : s.handles.length ≤ maxValueSessions
  made : ∀ entry ∈ s.handles, entry.2 < s.nextObject
  calls : ∀ i c, s.calls i = some c → c.OwnsIn s

theorem Custodial.made_of_lookup (h : Custodial s) {handle : String}
    (hlookup : s.handles.lookup handle = some object) : object < s.nextObject :=
  h.made (handle, object) (mem_of_lookup hlookup)

/-- One call is set or ends, and the others go on with their entries. -/
theorem Custodial.calls_update (h : Custodial s) {call : Option Narrow}
    (hcall : ∀ c, call = some c → c.OwnsIn s) :
    ∀ j c, update s.calls i call j = some c → c.OwnsIn s := by
  intro j c hc
  by_cases hji : j = i
  · subst hji
    rw [update_self] at hc
    exact hcall c hc
  · rw [update_of_ne hji] at hc
    exact h.calls j c hc

/-- A lock that is released is the only thing that changes. -/
theorem release_eq_setLocks (s : Registry) (sessionId : String) (i : CallId) :
    ∃ locks, s.release sessionId i = { s with locks := locks } := by
  unfold Registry.release
  split
  · exact ⟨_, rfl⟩
  · exact ⟨s.locks, rfl⟩

/-- What a step does to the table. -/
inductive Effect (s s' : Registry) (label : NarrowLabel) : Prop
  /-- A call goes on, or begins, or ends. -/
  | calls (handles : s'.handles = s.handles) (objects : s'.objects = s.objects)
      (next : s'.nextObject = s.nextObject) (owned : ∀ i c, s'.calls i = some c → c.OwnsIn s)
  /-- A call writes to an entry of its own session. -/
  | write (object : ObjectId) (entry : ValueSession)
      (actor : s.actor label = some (s.objects object).sessionId)
      (handles : s'.handles = s.handles) (objects : s'.objects = update s.objects object entry)
      (same : entry.sessionId = (s.objects object).sessionId)
      (next : s'.nextObject = s.nextObject) (owned : ∀ i c, s'.calls i = some c → c.OwnsIn s)
  /-- A handle is made. -/
  | register (sessionId handle : String) (width : Width) (candidates : List ℕ)
      (label_eq : label = .initial sessionId handle width candidates)
      (next : s' = s.register sessionId handle width candidates)
  /-- A session drops a handle of its own. -/
  | drop (handle : String) (object : ObjectId) (found : s.handles.lookup handle = some object)
      (actor : s.actor label = some (s.objects object).sessionId)
      (next : s' = { s with handles := s.handles.filter fun entry => entry.1 ≠ handle })

/-- A step of the value scans has one of these effects. -/
theorem effect_of_step (h : Custodial s) (hstep : narrowing.step s label = some s') :
    Effect s s' label := by
  cases label with
  | initial sessionId handle width candidates =>
    obtain rfl := Option.some.inj hstep
    exact .register sessionId handle width candidates rfl rfl
  | narrow i sessionId handle value op =>
    simp only [narrowing, narrowStep] at hstep
    split at hstep
    · obtain rfl := Option.some.inj hstep
      unfold Registry.beginNarrow
      split
      · exact .calls rfl rfl rfl h.calls
      · rename_i object target hvalid
        obtain ⟨hlookup, howner⟩ := Registry.validateNarrow_spec hvalid
        have hactor : s.actor (.narrow i sessionId handle value op) =
            some (s.objects object).sessionId := congrArg some howner.symm
        split
        · exact .write object _ hactor rfl rfl rfl rfl h.calls
        · refine .calls rfl rfl rfl (h.calls_update fun c hc => ?_)
          obtain rfl := Option.some.inj hc
          -- the call takes an entry that it may use, which is its own from then on
          exact ⟨h.made_of_lookup hlookup, howner⟩
    · cases hstep
  | enter i =>
    simp only [narrowing, narrowStep] at hstep
    split at hstep
    · rename_i c hc
      split at hstep
      · obtain rfl := Option.some.inj hstep
        refine .calls rfl rfl rfl (h.calls_update fun c' hc' => ?_)
        obtain rfl := Option.some.inj hc'
        exact h.calls i c hc
      · cases hstep
    · cases hstep
  | read i blob =>
    simp only [narrowing, narrowStep] at hstep
    split at hstep
    · rename_i c hc
      split at hstep
      · obtain rfl := Option.some.inj hstep
        refine .calls rfl rfl rfl (h.calls_update fun c' hc' => ?_)
        obtain rfl := Option.some.inj hc'
        exact h.calls i c hc
      · cases hstep
    · cases hstep
  | leave i =>
    simp only [narrowing, narrowStep] at hstep
    split at hstep
    · rename_i c hc
      split at hstep
      · obtain rfl := Option.some.inj hstep
        -- the call leaves its client before it writes
        obtain ⟨locks, hlocks⟩ :=
          release_eq_setLocks { s with calls := update s.calls i none } c.sessionId i
        rw [hlocks]
        have hactor : s.actor (.leave i) = some (s.objects c.object).sessionId := by
          rw [Registry.actor, hc, (h.calls i c hc).2]
          rfl
        exact .write c.object _ hactor rfl rfl rfl rfl (h.calls_update fun c' hc' => by cases hc')
      · cases hstep
    · cases hstep
  | abort i =>
    simp only [narrowing, narrowStep] at hstep
    split at hstep
    · rename_i c hc
      obtain rfl := Option.some.inj hstep
      obtain ⟨locks, hlocks⟩ :=
        release_eq_setLocks { s with calls := update s.calls i none } c.sessionId i
      rw [hlocks]
      exact .calls rfl rfl rfl (h.calls_update fun c' hc' => by cases hc')
    · cases hstep
  | drop sessionId handle =>
    obtain rfl := Option.some.inj hstep
    unfold Registry.drop
    split
    · exact .calls rfl rfl rfl h.calls
    · rename_i object hlookup
      split
      · exact .calls rfl rfl rfl h.calls
      · rename_i howned
        exact .drop handle object (Registry.lookup_handles hlookup)
          (congrArg some (Registry.sessionId_of_owned howned).symm) rfl

/-- Entries keep their sessions, so calls keep working on entries of their own. -/
theorem Narrow.OwnsIn.frame (h : c.OwnsIn s) (hnext : s.nextObject ≤ s'.nextObject)
    (hsame : (s'.objects c.object).sessionId = (s.objects c.object).sessionId) : c.OwnsIn s' :=
  ⟨Nat.lt_of_lt_of_le h.1 hnext, hsame.trans h.2⟩

theorem Custodial.step (h : Custodial s) (hstep : narrowing.step s label = some s') :
    Custodial s' := by
  cases effect_of_step h hstep with
  | calls handles objects next owned =>
    refine ⟨handles ▸ h.bounded, ?_, fun i c hc => ?_⟩
    · rw [handles, next]
      exact h.made
    · exact (owned i c hc).frame next.ge (by rw [objects])
  | write object entry _ handles objects same next owned =>
    refine ⟨handles ▸ h.bounded, ?_, fun i c hc => (owned i c hc).frame next.ge ?_⟩
    · rw [handles, next]
      exact h.made
    · rw [objects]
      by_cases hobject : c.object = object
      · rw [hobject, update_self, same]
      · rw [update_of_ne hobject]
  | register sessionId handle width candidates _ next =>
    subst next
    refine ⟨?_, fun entry hentry => ?_, fun i c hc => (h.calls i c hc).frame (Nat.le_succ _) ?_⟩
    · rw [Registry.handles_register]
      exact length_insertEvicting_le (by decide)
    · rw [Registry.handles_register] at hentry
      rcases mem_insertEvicting hentry with hold | rfl
      · exact Nat.lt_succ_of_lt (h.made entry hold)
      · exact Nat.lt_succ_self _
    · exact congrArg _ (update_of_ne (Nat.ne_of_lt (h.calls i c hc).1) _ _)
  | drop handle object _ _ next =>
    subst next
    exact ⟨(List.length_filter_le _ _).trans h.bounded,
      fun entry hentry => h.made entry (List.mem_of_mem_filter hentry), h.calls⟩

theorem custodial_emptyRegistry : Custodial emptyRegistry where
  bounded := Nat.zero_le _
  made entry hentry := absurd hentry List.not_mem_nil
  calls i c hc := by cases hc

/-- In every state of the value scans the table is bounded, and calls work on entries of their
own sessions. -/
theorem custodial_of_reachable (h : narrowing.Reachable emptyRegistry s) : Custodial s :=
  Machine.Reachable.invariant custodial_emptyRegistry (fun _ _ _ ht hstep => ht.step hstep) h

/-! ## Steps respect the owners -/

/-- What is live under a handle is an entry of the table. -/
theorem live_eq_some_iff {handle : String} {a : ValueSession} : s.live handle = some a ↔
    ∃ object, s.handles.lookup handle = some object ∧ s.objects object = a :=
  Option.map_eq_some_iff

/-- A step that makes no handle respects the owners. -/
theorem kept_of_effect (he : Effect s s' label)
    (hlabel : ∀ sessionId handle width candidates,
      label ≠ .initial sessionId handle width candidates) :
    Kept ValueSession.sessionId (s.actor label) (s.Evicts label) s.live s'.live := by
  intro handle a ha
  obtain ⟨found, hfound, rfl⟩ := live_eq_some_iff.mp ha
  cases he with
  | calls handles objects =>
    refine Or.inl (live_eq_some_iff.mpr ⟨found, ?_, ?_⟩)
    · rw [handles, hfound]
    · rw [objects]
  | write object entry actor handles objects =>
    by_cases hobject : found = object
    · exact Or.inr (Or.inl (hobject ▸ actor))
    · refine Or.inl (live_eq_some_iff.mpr ⟨found, ?_, ?_⟩)
      · rw [handles, hfound]
      · rw [objects, update_of_ne hobject]
  | register sessionId handle width candidates label_eq =>
    exact absurd label_eq (hlabel sessionId handle width candidates)
  | drop dropped object lookup actor next =>
    by_cases hdropped : handle = dropped
    · subst hdropped
      -- a session drops only what it made
      obtain rfl := Option.some.inj (hfound.symm.trans lookup)
      exact Or.inr (Or.inl actor)
    · subst next
      refine Or.inl (live_eq_some_iff.mpr ⟨found, ?_, rfl⟩)
      exact (lookup_filter_of_ne hdropped).trans hfound

/-- A new handle respects the owners exactly when it takes the place of none of another
session. -/
theorem kept_register_iff (h : Custodial s) (sessionId handle : String) (width : Width)
    (candidates : List ℕ) :
    Kept ValueSession.sessionId (some sessionId)
        (s.Evicts (.initial sessionId handle width candidates)) s.live
        (s.register sessionId handle width candidates).live ↔
      ∀ a, s.live handle = some a → a.sessionId = sessionId ∨
        s.Evicts (.initial sessionId handle width candidates) handle := by
  have hnew : ((s.register sessionId handle width candidates).objects s.nextObject).sessionId =
      sessionId := congrArg ValueSession.sessionId (update_self s.nextObject _ s.objects)
  -- the new entry is an object of its own, so that the others keep their contents
  exact kept_insertEvicting_iff handle s.objects _ h.bounded hnew fun other object hlookup =>
    update_of_ne (Nat.ne_of_lt (h.made_of_lookup hlookup)) _ _

end Steps

section Snapshots

variable {t t' : Snapshots} {label : DiffLabel}

/-- A snapshot respects the owners exactly when its handle takes the place of none of another
session, and comparisons and drops always do. -/
theorem kept_diffStep_iff (hstep : diffing.step t label = some t') :
    Kept Snapshot.sessionId (some (snapshotActor label)) (SnapshotEvicts t label) t.get t'.get ↔
      ∀ handle snapshot, label = .snapshot handle snapshot → ∀ a, t.get handle = some a →
        a.sessionId = snapshot.sessionId ∨ SnapshotEvicts t label handle := by
  cases label with
  | snapshot handle snapshot =>
    obtain rfl := Option.some.inj hstep
    have hnew := kept_insertEvicting_iff handle id id t.bounded
      (rfl : Snapshot.sessionId (id snapshot) = snapshot.sessionId) fun _ _ _ => rfl
    simp only [Option.map_id_fun, id_eq] at hnew
    refine hnew.trans ⟨?_, fun hfree => hfree handle snapshot rfl⟩
    rintro hfree _ _ ⟨⟩
    exact hfree
  | compare sessionId handle current =>
    obtain rfl := Option.some.inj hstep
    exact iff_of_true (fun _ _ ha => Or.inl ha) (by rintro _ _ ⟨⟩)
  | drop sessionId handle =>
    refine iff_of_true (fun other a ha => ?_) (by rintro _ _ ⟨⟩)
    simp only [diffing, diffStep] at hstep
    split at hstep
    · obtain rfl := Option.some.inj hstep
      exact Or.inl ha
    · rename_i dropped t'' hdrop
      obtain rfl := Option.some.inj hstep
      rcases Snapshots.drop_spec hdrop with rfl | ⟨rfl, snapshot, hget, howner⟩
      · exact Or.inl ha
      · by_cases hother : other = handle
        · subst hother
          obtain rfl := Option.some.inj (ha.symm.trans hget)
          exact Or.inr (Or.inl (congrArg some howner.symm))
        · exact Or.inl ((Snapshots.get_erase_of_ne hother).trans ha)

end Snapshots

variable {s : Registry × Snapshots}

/-- In every state the tables are bounded, and a step from it respects the owners of handles
exactly when it draws no handle that is live in another session. -/
theorem ownerOnly_iff (h : handling.Reachable (emptyRegistry, noSnapshots) s) :
    s.1.handles.length ≤ maxValueSessions ∧ s.2.entries.length ≤ maxSnapshots ∧
      ∀ label s', handling.step s label = some s' → (OwnerOnly s s' label ↔ DrawsFree s label) := by
  have hcustodial : Custodial s.1 := custodial_of_reachable (Machine.reachable_of_beside h).1
  refine ⟨hcustodial.bounded, s.2.bounded, fun label s' hstep => ?_⟩
  cases label with
  | inl label =>
    obtain ⟨r, hr, rfl⟩ := Option.map_eq_some_iff.mp hstep
    rw [OwnerOnly, and_iff_left rfl]
    cases label with
    | initial sessionId handle width candidates =>
      obtain rfl := Option.some.inj hr
      exact kept_register_iff hcustodial sessionId handle width candidates
    | _ =>
      exact iff_of_true
        (kept_of_effect (effect_of_step hcustodial hr) (by rintro _ _ _ _ ⟨⟩)) trivial
  | inr label =>
    obtain ⟨t, ht, rfl⟩ := Option.map_eq_some_iff.mp hstep
    rw [OwnerOnly, and_iff_right rfl, kept_diffStep_iff ht]
    cases label with
    | snapshot handle snapshot =>
      exact ⟨fun hfree => hfree handle snapshot rfl, by rintro hfree _ _ ⟨⟩; exact hfree⟩
    | _ => exact iff_of_true (by rintro _ _ ⟨⟩) trivial

/-- Two sessions with a scan each, and a snapshot of the second. -/
def twoSessions : List (NarrowLabel ⊕ DiffLabel) :=
  [.inl (.initial "psp-1" "a1b2c3d4" .u8 [16, 17]), .inl (.initial "psp-2" "0badcafe" .u8 [32]),
   .inr (.snapshot "5eed5eed" ⟨0x08804000, [1, 2], "psp-2"⟩)]

theorem ownerOnly_twoSessions :
    ∃ s, handling.run (emptyRegistry, noSnapshots) twoSessions = some s ∧
      s.1.handles.length ≤ maxValueSessions ∧ s.2.entries.length ≤ maxSnapshots ∧
      ∀ label s', handling.step s label = some s' → (OwnerOnly s s' label ↔ DrawsFree s label) :=
  ⟨_, rfl, ownerOnly_iff (Machine.reachable_of_run twoSessions rfl)⟩

/-- The scan of the second session draws the handle of the first, whose candidates are gone. -/
theorem not_ownerOnly_sameHandle :
    ∃ s s', handling.Reachable (emptyRegistry, noSnapshots) s ∧
      handling.step s (.inl (.initial "psp-2" "a1b2c3d4" .u8 [32])) = some s' ∧
      s.1.live "a1b2c3d4" = some ⟨"psp-1", .u8, [16, 17], 1⟩ ∧
      s'.1.live "a1b2c3d4" = some ⟨"psp-2", .u8, [32], 1⟩ ∧
      ¬ OwnerOnly s s' (.inl (.initial "psp-2" "a1b2c3d4" .u8 [32])) := by
  refine ⟨_, _, Machine.reachable_of_run [.inl (.initial "psp-1" "a1b2c3d4" .u8 [16, 17])] rfl,
    rfl, rfl, rfl, fun hkept => ?_⟩
  rcases hkept.1 "a1b2c3d4" _ rfl with hlive | hactor | ⟨hfull, -⟩
  · have hcandidates := congrArg (Option.map ValueSession.addresses) hlive
    exact absurd hcandidates (by decide)
  · exact absurd hactor (by decide)
  · exact absurd hfull (by decide)

end Scan
