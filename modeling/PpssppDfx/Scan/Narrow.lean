import Mathlib.Logic.Function.Basic
import PpssppDfx.Scan.Value
import PpssppDfx.Semantics.BoundedTable
import PpssppDfx.Semantics.Machine

/-!
# Narrowing a value scan

The candidates of a value scan are kept under a handle in a table of the server process.
A later call reads them again from memory and keeps those that satisfy its comparison: it
takes the candidate list, reads memory under the lock of the session, and writes what it
kept back to the entry of the handle. An entry that was dropped or evicted meanwhile is
still the one that it writes to.

A call is a task of its own. What it does between two awaits is one step of the machine,
and the label of a step carries the outcome of the await.

## Main definitions

* `Scan.mergeRuns` — the spans of memory that cover the candidates
* `Scan.Registry` — the table, its entries and the calls under way
* `Scan.narrowing` — the machine
-/

set_option autoImplicit false

namespace Scan

open Semantics Python Function

/-! ## Runs -/

/-- Candidates that one read covers. -/
structure Run where
  start : ℕ
  span : ℤ
  members : List ℕ

def mergeFrom (size start last : ℕ) (members : List ℕ) : List ℕ → List Run
  | [] => [⟨start, (last : ℤ) - start + size, members⟩]
  | addr :: rest =>
    -- the candidate begins in the last one, or right behind it
    if (addr : ℤ) - last ≤ size then mergeFrom size start addr (members ++ [addr]) rest
    else ⟨start, (last : ℤ) - start + size, members⟩ :: mergeFrom size addr addr [addr] rest

/-- `_merge_runs`. -/
def mergeRuns (addresses : List ℕ) (size : ℕ) : List Run :=
  match addresses with
  | [] => []
  | addr :: rest => mergeFrom size addr addr [addr] rest

theorem flatMap_mergeFrom (size start last : ℕ) (members rest : List ℕ) :
    (mergeFrom size start last members rest).flatMap (·.members) = members ++ rest := by
  induction rest generalizing start last members with
  | nil => simp [mergeFrom]
  | cons addr rest ih =>
    rw [mergeFrom]
    split
    · rw [ih, List.append_assoc, List.singleton_append]
    · rw [List.flatMap_cons, ih, List.singleton_append]

/-- No candidate is lost between the runs. -/
theorem members_mergeRuns (addresses : List ℕ) (size : ℕ) :
    (mergeRuns addresses size).flatMap (·.members) = addresses := by
  cases addresses with
  | nil => rfl
  | cons addr rest => exact flatMap_mergeFrom size addr addr [addr] rest

/-! ## Entries and calls -/

/-- An entry of `_VALUE_SESSIONS`. -/
structure ValueSession where
  sessionId : String
  width : Width
  addresses : List ℕ
  passes : ℕ

def maxValueSessions : ℕ := 4

abbrev ObjectId := ℕ

abbrev CallId := ℕ

/-- A narrow call that wrote: the candidates it had read, and those it kept. -/
structure Pass where
  read : List ℕ
  kept : List ℕ

def Pass.Eliminates (pass : Pass) (a : ℕ) : Prop := a ∈ pass.read ∧ a ∉ pass.kept

instance (pass : Pass) : DecidablePred pass.Eliminates :=
  fun _ => inferInstanceAs (Decidable (_ ∧ _))

/-- Where a narrow call awaits. -/
inductive NarrowPhase where
  /-- The lock of the session. -/
  | entering
  /-- The read of the first run; with no run left, the end of the client context. -/
  | reading (runs : List Run) (out : List ℕ)
  /-- The read of one candidate of a run that could not be read as a whole. -/
  | single (addr : ℕ) (addrs : List ℕ) (runs : List Run) (out : List ℕ)

/-- The candidates kept so far. -/
def NarrowPhase.out : NarrowPhase → List ℕ
  | entering => []
  | reading _ out => out
  | single _ _ _ out => out

structure Narrow where
  sessionId : String
  object : ObjectId
  size : ℕ
  op : Op
  value : ℤ
  phase : NarrowPhase
  /-- The candidate list that the call took. -/
  read : List ℕ
  /-- How many narrow calls had written to the entry by then. -/
  seen : ℕ

/-- Whether the candidate at an offset of what was read is kept. -/
def Narrow.keeps (c : Narrow) (blob : Bytes) (off : ℕ) : Bool :=
  ((blob.drop off).take c.size).length = c.size &&
    cmp (littleEndian ((blob.drop off).take c.size)) c.op c.value

/-- The candidates of a run are read one by one. -/
def singly (out : List ℕ) (runs : List Run) : List ℕ → NarrowPhase
  | [] => .reading runs out
  | addr :: addrs => .single addr addrs runs out

/-- A read under way ends: `none` if it raised. -/
def Narrow.readEnds (c : Narrow) (blob : Option Bytes) : Option NarrowPhase :=
  match c.phase with
  | .entering => none
  | .reading [] _ => none
  | .reading (run :: runs) out =>
    match blob with
    -- a part of the span may be unmapped: its candidates are read one by one
    | none => some (singly out runs run.members)
    | some blob =>
      some (.reading runs (out ++ run.members.filter fun addr => c.keeps blob (addr - run.start)))
  | .single addr addrs runs out =>
    match blob with
    -- a candidate that cannot be read is dropped
    | none => some (singly out runs addrs)
    | some raw =>
      some (singly (if raw.length = c.size ∧ c.keeps raw 0 = true then out ++ [addr] else out)
        runs addrs)

/-! ## The table -/

structure Registry where
  /-- `_VALUE_SESSIONS` in insertion order. -/
  handles : List (String × ObjectId)
  /-- The entries, also those that are in the table no more. -/
  objects : ObjectId → ValueSession
  nextObject : ObjectId
  calls : CallId → Option Narrow
  /-- Which call holds the lock of a session. -/
  locks : String → Option CallId
  /-- The candidates of an entry when it was made. -/
  first : ObjectId → List ℕ
  /-- The narrow calls that wrote to an entry, in the order of their writes. -/
  passes : ObjectId → List Pass

namespace Registry

variable (s : Registry)

/-- The end of the phase `initial`: `_evict_oldest_if_full`, and the new entry under its handle. -/
def register (sessionId handle : String) (width : Width) (candidates : List ℕ) : Registry :=
  { s with
    handles := insertEvicting maxValueSessions s.handles handle s.nextObject
    objects := update s.objects s.nextObject ⟨sessionId, width, candidates, 1⟩
    nextObject := s.nextObject + 1
    first := update s.first s.nextObject candidates
    passes := update s.passes s.nextObject [] }

/-- The entry of a handle, for the phases after the first. -/
def lookup (phase handle : String) : Except String ObjectId :=
  if handle = "" then .error ("phase='" ++ phase ++ "' requires scan_handle")
  else
    match s.handles.lookup handle with
    | none =>
      .error ("unknown scan_handle " ++ strRepr handle ++ " — use phase='initial' " ++
        "(sessions are per-server-process, cap " ++ toString maxValueSessions ++ " FIFO)")
    | some object => .ok object

/-- A handle is used only in the session that made it. -/
def owned (sessionId handle : String) (object : ObjectId) : Except String Unit :=
  if (s.objects object).sessionId = sessionId then .ok ()
  else
    .error ("scan_handle " ++ strRepr handle ++ " belongs to session " ++
      strRepr (s.objects object).sessionId ++ ", not " ++ strRepr sessionId ++
      " — drop it and re-scan in this session")

/-- The checks of the phase `narrow`. -/
def validateNarrow (sessionId handle : String) (value : Option ℤ) :
    Except String (ObjectId × ℤ) := do
  let object ← s.lookup "narrow" handle
  match value with
  | none => .error "phase='narrow' requires value"
  | some value =>
    -- the value is checked before the owner of the handle is
    let value ← validateUnsignedValue value (s.objects object).width
    s.owned sessionId handle object
    .ok (object, value)

/-- `sess["addresses"] = ...; sess["passes"] += 1`. -/
def write (object : ObjectId) (pass : Pass) : Registry :=
  { s with
    objects := update s.objects object
      { s.objects object with
        addresses := pass.kept, passes := (s.objects object).passes + 1 }
    passes := update s.passes object (s.passes object ++ [pass]) }

/-- A narrow call up to its first await: it takes the candidate list. Without candidates
there is nothing to await. -/
def beginNarrow (i : CallId) (sessionId handle : String) (value : Option ℤ) (op : Op) : Registry :=
  match s.validateNarrow sessionId handle value with
  | .error _ => s
  | .ok (object, value) =>
    -- `_narrow_candidates` returns before it asks for a client
    if (s.objects object).addresses = [] then s.write object ⟨[], []⟩
    else
      { s with
        calls := update s.calls i (some
          { sessionId := sessionId
            object := object
            size := (s.objects object).width.size
            op := op
            value := value
            phase := .entering
            read := (s.objects object).addresses
            seen := (s.passes object).length }) }

/-- The lock of the session, if the call holds it, is free again. -/
def release (sessionId : String) (i : CallId) : Registry :=
  if s.locks sessionId = some i then { s with locks := update s.locks sessionId none } else s

/-- The phase `drop`. -/
def drop (sessionId handle : String) : Registry :=
  match s.lookup "drop" handle with
  | .error _ => s
  | .ok object =>
    match s.owned sessionId handle object with
    | .error _ => s
    | .ok () => { s with handles := s.handles.filter fun entry => entry.1 ≠ handle }

end Registry

/-! ## The machine -/

inductive NarrowLabel where
  /-- An initial scan ends with its candidates. -/
  | initial (sessionId handle : String) (width : Width) (candidates : List ℕ)
  /-- A narrow call arrives. -/
  | narrow (i : CallId) (sessionId handle : String) (value : Option ℤ) (op : Op)
  /-- It gets the lock of the session and a client. -/
  | enter (i : CallId)
  /-- Its read yields bytes, or raises. -/
  | read (i : CallId) (blob : Option Bytes)
  /-- It has left the client context, writes and returns. -/
  | leave (i : CallId)
  /-- An await other than a read raises, or the call is cancelled. -/
  | abort (i : CallId)
  | drop (sessionId handle : String)

def narrowStep (s : Registry) : NarrowLabel → Option Registry
  | .initial sessionId handle width candidates =>
    some (s.register sessionId handle width candidates)
  | .narrow i sessionId handle value op =>
    if (s.calls i).isNone then some (s.beginNarrow i sessionId handle value op) else none
  | .enter i =>
    match s.calls i with
    | some c =>
      match c.phase, s.locks c.sessionId with
      | .entering, none =>
        some
          { s with
            calls := update s.calls i
              (some { c with phase := .reading (mergeRuns c.read c.size) [] })
            locks := update s.locks c.sessionId (some i) }
      | _, _ => none
    | none => none
  | .read i blob =>
    match s.calls i with
    | some c =>
      match c.readEnds blob with
      | some phase => some { s with calls := update s.calls i (some { c with phase := phase }) }
      | none => none
    | none => none
  | .leave i =>
    match s.calls i with
    | some c =>
      match c.phase with
      | .reading [] out =>
        some ({ s with calls := update s.calls i none }.release c.sessionId i |>.write c.object
          ⟨c.read, out⟩)
      | _ => none
    | none => none
  | .abort i =>
    match s.calls i with
    | some c => some ({ s with calls := update s.calls i none }.release c.sessionId i)
    | none => none
  | .drop sessionId handle => some (s.drop sessionId handle)

/-- Initial scans, narrow calls and drops of one server process, in any order. -/
def narrowing : Machine Registry NarrowLabel := ⟨narrowStep⟩

/-- The table of a process that has just started. -/
def emptyRegistry : Registry where
  handles := []
  objects := fun _ => ⟨"", .u8, [], 0⟩
  nextObject := 0
  calls := fun _ => none
  locks := fun _ => none
  first := fun _ => []
  passes := fun _ => []

/-! ## Handles that are accepted -/

section Checks

variable {s : Registry} {sessionId handle phase : String} {object : ObjectId}

theorem Registry.lookup_handles (h : s.lookup phase handle = .ok object) :
    s.handles.lookup handle = some object := by
  unfold Registry.lookup at h
  split at h
  · cases h
  · split at h
    · cases h
    · rename_i hlookup
      obtain rfl := Except.ok.inj h
      exact hlookup

theorem Registry.sessionId_of_owned {u : Unit} (h : s.owned sessionId handle object = .ok u) :
    (s.objects object).sessionId = sessionId := by
  unfold Registry.owned at h
  split at h
  · assumption
  · cases h

/-- The table of the value scans is one that evicts its oldest entry. -/
theorem Registry.handles_register (s : Registry) (sessionId handle : String) (width : Width)
    (candidates : List ℕ) : (s.register sessionId handle width candidates).handles =
      insertEvicting maxValueSessions s.handles handle s.nextObject := rfl

/-- A handle that a narrow call accepts is in the table and of the session of the call. -/
theorem Registry.validateNarrow_spec {value : Option ℤ} {target : ℤ}
    (h : s.validateNarrow sessionId handle value = .ok (object, target)) :
    s.handles.lookup handle = some object ∧ (s.objects object).sessionId = sessionId := by
  unfold Registry.validateNarrow at h
  cases hlookup : s.lookup "narrow" handle with
  | error message =>
    rw [hlookup] at h
    cases h
  | ok found =>
    rw [hlookup] at h
    cases value with
    | none => cases h
    | some value =>
      cases hvalue : validateUnsignedValue value (s.objects found).width with
      | error message => simp [bind, Except.bind, hvalue] at h
      | ok value =>
        cases howned : s.owned sessionId handle found with
        | error message => simp [bind, Except.bind, hvalue, howned] at h
        | ok =>
          simp only [bind, Except.bind, hvalue, howned] at h
          obtain ⟨rfl, -⟩ := Prod.mk.inj (Except.ok.inj h)
          exact ⟨lookup_handles hlookup, sessionId_of_owned howned⟩

end Checks

end Scan
