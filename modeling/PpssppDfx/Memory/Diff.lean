import PpssppDfx.Python.Value
import PpssppDfx.Semantics.BoundedTable
import PpssppDfx.Semantics.Machine

/-!
# Memory snapshots

A snapshot of a range of memory is kept under a handle in a table of the server process, and
later compared with what the range holds then. The table is bounded, and shared by all
sessions.

## Main definitions

* `Diff.Snapshots` — the table
* `Diff.compare` — the bytes that differ from a snapshot
* `Diff.diffing` — the machine

## Main results

* `changesFrom_eq` — the changes that are listed are the first of all changes
-/

set_option autoImplicit false

namespace Diff

open Python Semantics

/-! ## The table -/

/-- An entry of `_SNAPSHOTS`. -/
structure Snapshot where
  start : ℕ
  data : List UInt8
  sessionId : String
  deriving DecidableEq

def maxSnapshots : ℕ := 4

/-- `_SNAPSHOTS` in insertion order. -/
structure Snapshots where
  entries : List (String × Snapshot)
  bounded : entries.length ≤ maxSnapshots

/-- The table of a process that has just started. -/
def noSnapshots : Snapshots := ⟨[], Nat.zero_le _⟩

namespace Snapshots

variable (t : Snapshots)

def get (handle : String) : Option Snapshot := t.entries.lookup handle

/-- The end of the action `snapshot`, when the range has been read. -/
def store (handle : String) (snapshot : Snapshot) : Snapshots where
  entries := insertEvicting maxSnapshots t.entries handle snapshot
  bounded := length_insertEvicting_le (by decide)

def erase (handle : String) : Snapshots where
  entries := t.entries.filter fun entry => decide (entry.1 ≠ handle)
  bounded := (List.length_filter_le _ _).trans t.bounded

/-- The action `drop`: whether there was a snapshot, and the table after it. -/
def drop (sessionId handle : String) : Except String (Bool × Snapshots) :=
  if handle = "" then .error "action='drop' requires handle"
  else
    match t.get handle with
    | none => .ok (false, t)
    | some snapshot =>
      if snapshot.sessionId ≠ sessionId then
        .error ("handle " ++ strRepr handle ++ " was snapshotted in session " ++
          strRepr snapshot.sessionId ++ ", not " ++ strRepr sessionId)
      else .ok (true, t.erase handle)

variable {t} {t' : Snapshots} {sessionId handle : String}

/-- A session drops nothing, or a snapshot of its own. -/
theorem drop_spec {dropped : Bool} (h : t.drop sessionId handle = .ok (dropped, t')) :
    t' = t ∨ t' = t.erase handle ∧
      ∃ snapshot, t.get handle = some snapshot ∧ snapshot.sessionId = sessionId := by
  unfold drop at h
  split at h
  · cases h
  · split at h
    · obtain ⟨-, rfl⟩ := Prod.mk.inj (Except.ok.inj h)
      exact Or.inl rfl
    · rename_i snapshot hget
      split at h
      · cases h
      · rename_i howner
        obtain ⟨-, rfl⟩ := Prod.mk.inj (Except.ok.inj h)
        exact Or.inr ⟨rfl, snapshot, hget, not_not.mp howner⟩

/-- The other handles stay. -/
theorem get_erase_of_ne {other : String} (hne : other ≠ handle) :
    (t.erase handle).get other = t.get other := lookup_filter_of_ne hne

end Snapshots

/-! ## Comparing -/

structure DiffChange where
  address : ℕ
  old : UInt8
  new : UInt8
  deriving DecidableEq

def maxChangesInline : ℕ := 256

structure DiffCompareResult where
  changedCount : ℕ
  truncated : Bool
  changes : List DiffChange
  deriving DecidableEq

/-- A byte that differs: it is counted, and listed while there is room. -/
def DiffCompareResult.add (result : DiffCompareResult) (change : DiffChange) :
    DiffCompareResult :=
  if result.changes.length < maxChangesInline then
    ⟨result.changedCount + 1, result.truncated, result.changes ++ [change]⟩
  -- the count goes on, but nothing is listed any more
  else ⟨result.changedCount + 1, true, result.changes⟩

/-- The pass over the old and the new bytes from an address on. -/
def changesFrom (result : DiffCompareResult) : ℕ → List (UInt8 × UInt8) → DiffCompareResult
  | _, [] => result
  | address, (old, new) :: rest =>
    if old = new then changesFrom result (address + 1) rest
    else changesFrom (result.add ⟨address, old, new⟩) (address + 1) rest

/-- The action `compare`; `current` is what the range holds now, as many bytes as the snapshot
has. -/
def compare (t : Snapshots) (sessionId handle : String) (current : List UInt8) :
    Except String DiffCompareResult :=
  if handle = "" then .error "action='compare' requires handle"
  else
    match t.get handle with
    | none =>
      .error ("unknown handle " ++ strRepr handle ++ " — use action='list' " ++
        "(handles are per-server-process and FIFO-evicted)")
    | some snapshot =>
      if snapshot.sessionId ≠ sessionId then
        .error ("handle " ++ strRepr handle ++ " was snapshotted in session " ++
          strRepr snapshot.sessionId ++ ", not " ++ strRepr sessionId ++
          " — cross-session comparison would produce a meaningless diff; " ++
          "snapshot it again in this session")
      else .ok (changesFrom ⟨0, false, []⟩ snapshot.start (snapshot.data.zip current))

/-- All bytes that differ. -/
def allChanges : ℕ → List (UInt8 × UInt8) → List DiffChange
  | _, [] => []
  | address, (old, new) :: rest =>
    if old = new then allChanges (address + 1) rest
    else ⟨address, old, new⟩ :: allChanges (address + 1) rest

/-- All changes are counted, and the first of them are listed. -/
def summary (changes : List DiffChange) : DiffCompareResult where
  changedCount := changes.length
  truncated := decide (maxChangesInline < changes.length)
  changes := changes.take maxChangesInline

theorem add_summary (changes : List DiffChange) (change : DiffChange) :
    (summary changes).add change = summary (changes ++ [change]) := by
  have hlength : (changes ++ [change]).length = changes.length + 1 := List.length_append
  rw [DiffCompareResult.add]
  -- the list of the first changes is full or not
  by_cases hroom : changes.length < maxChangesInline
  · have hlisted : (summary changes).changes.length < maxChangesInline := by
      rw [summary, List.length_take]
      omega
    have hbefore : decide (maxChangesInline < changes.length) = false :=
      decide_eq_false (by omega)
    have hafter : decide (maxChangesInline < (changes ++ [change]).length) = false :=
      decide_eq_false (by omega)
    rw [if_pos hlisted, summary, summary, hbefore, hafter, List.take_of_length_le hroom.le,
      List.take_of_length_le (by omega), hlength]
  · have hlisted : ¬ (summary changes).changes.length < maxChangesInline := by
      rw [summary, List.length_take]
      omega
    have hafter : decide (maxChangesInline < (changes ++ [change]).length) = true :=
      decide_eq_true (by omega)
    rw [if_neg hlisted, summary, summary, hafter, List.take_append_of_le_length (by omega),
      hlength]

/-- The pass goes on from the changes so far as if it had begun with them. -/
theorem changesFrom_summary (before : List DiffChange) (address : ℕ)
    (bytes : List (UInt8 × UInt8)) :
    changesFrom (summary before) address bytes = summary (before ++ allChanges address bytes) := by
  induction bytes generalizing address before with
  | nil => rw [allChanges, List.append_nil, changesFrom]
  | cons pair rest ih =>
    obtain ⟨old, new⟩ := pair
    rw [changesFrom, allChanges]
    by_cases hsame : old = new
    · rw [if_pos hsame, if_pos hsame, ih]
    · rw [if_neg hsame, if_neg hsame, add_summary, ih, List.append_assoc, List.singleton_append]

/-- A comparison counts all changes and lists the first of them. -/
theorem changesFrom_eq (address : ℕ) (bytes : List (UInt8 × UInt8)) :
    changesFrom ⟨0, false, []⟩ address bytes = summary (allChanges address bytes) :=
  changesFrom_summary [] address bytes

/-! ## The machine -/

inductive DiffLabel where
  /-- A range has been read for a snapshot. -/
  | snapshot (handle : String) (snapshot : Snapshot)
  /-- A comparison ends; it holds on to the entry that it found before it read the range. -/
  | compare (sessionId handle : String) (current : List UInt8)
  | drop (sessionId handle : String)

def diffStep (t : Snapshots) : DiffLabel → Option Snapshots
  | .snapshot handle snapshot => some (t.store handle snapshot)
  -- the entry stays as it is, also when the range cannot be compared
  | .compare _ _ _ => some t
  | .drop sessionId handle =>
    match t.drop sessionId handle with
    | .error _ => some t
    | .ok (_, t') => some t'

/-- Snapshots, comparisons and drops of one server process, in any order. -/
def diffing : Machine Snapshots DiffLabel := ⟨diffStep⟩

end Diff
