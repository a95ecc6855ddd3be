import PpssppDfx.Semantics.DropOldest

/-!
# Rings of records that change in place

A ring keeps the newest `cap` records, and a record can still change while the ring holds it:
an operation appends a record or updates every record held. The same operations on an
unbounded log show what is lost by the bound: the old records, and nothing about those that
are left, since a record that the ring holds has been in it from the start.

## Main definitions

* `RingOp` — append a record, or update all of them
* `RingOp.kept` — the records of a list of operations, each after the later updates

## Main results

* `foldl_onRing` — the ring after a list of operations
* `foldl_onRing_eq_kept` — the ring in terms of what happened to each record
-/

set_option autoImplicit false

namespace Semantics

variable {α : Type*}

/-- What happens to a ring of records. -/
inductive RingOp (α : Type*) where
  | push (x : α)
  | update (f : α → α)

namespace RingOp

/-- An operation on a ring of capacity `cap`. -/
def onRing (cap : ℕ) (q : List α) : RingOp α → List α
  | .push x => pushDropOldest cap q x
  | .update f => q.map f

/-- The operation on a log without a bound. -/
def onLog (l : List α) : RingOp α → List α
  | .push x => l ++ [x]
  | .update f => l.map f

/-- What the updates among later operations make of a record. -/
def later : List (RingOp α) → α → α
  | [], x => x
  | .push _ :: rest, x => later rest x
  | .update f :: rest, x => later rest (f x)

/-- The records of a list of operations, the oldest first, each after the later updates. -/
def kept : List (RingOp α) → List α
  | [] => []
  | .push x :: rest => later rest x :: kept rest
  | .update _ :: rest => kept rest

variable {cap : ℕ} {q l : List α} {ops : List (RingOp α)}

theorem map_rtake (f : α → α) (l : List α) (n : ℕ) : (l.map f).rtake n = (l.rtake n).map f := by
  rw [List.rtake, List.rtake, List.length_map, List.map_drop]

theorem length_onRing_le (hcap : 0 < cap) (hq : q.length ≤ cap) (op : RingOp α) :
    (op.onRing cap q).length ≤ cap := by
  cases op with
  | push x => exact length_pushDropOldest_le hcap hq
  | update f => rwa [onRing, List.length_map]

/-- One operation on the newest records of a log gives the newest records of the log after it. -/
theorem onRing_rtake (hcap : 0 < cap) (l : List α) (op : RingOp α) :
    op.onRing cap (l.rtake cap) = (op.onLog l).rtake cap := by
  cases op with
  | push x =>
    have hlen : (l.rtake cap).length ≤ cap := by
      rw [List.rtake, List.length_drop]
      omega
    rw [onRing, pushDropOldest_eq_rtake hcap hlen, rtake_rtake_append, onLog]
  | update f => rw [onRing, onLog, map_rtake]

/-- A ring holds the newest records of the log, as the log has them. -/
theorem foldl_onRing (hcap : 0 < cap) (ops : List (RingOp α)) (l : List α) :
    ops.foldl (onRing cap) (l.rtake cap) = (ops.foldl onLog l).rtake cap := by
  induction ops generalizing l with
  | nil => rfl
  | cons op rest ih => rw [List.foldl_cons, List.foldl_cons, onRing_rtake hcap, ih]

/-- A log in terms of what happened to each of its records. -/
theorem foldl_onLog (ops : List (RingOp α)) (l : List α) :
    ops.foldl onLog l = l.map (later ops) ++ kept ops := by
  induction ops generalizing l with
  | nil => simp [later, kept]
  | cons op rest ih =>
    rw [List.foldl_cons, ih]
    cases op with
    | push x => simp [onLog, later, kept]
    | update f => simp [onLog, later, kept, Function.comp_def]

/-- A ring that starts empty holds the newest of the records that were appended, each after
the updates that came later. -/
theorem foldl_onRing_eq_kept (hcap : 0 < cap) (ops : List (RingOp α)) :
    ops.foldl (onRing cap) [] = (kept ops).rtake cap := by
  have hring := foldl_onRing hcap ops []
  rw [foldl_onLog, List.map_nil, List.nil_append] at hring
  simpa [List.rtake] using hring

end RingOp

end Semantics
