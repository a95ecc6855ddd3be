import Mathlib.Data.Nat.Notation

/-!
# Logs of changes

An observer of a stream of values writes down each value that differs from the one before.
The entries of a complete log are linked: each starts from the value that the one before
ended with, and the last one ends with the value seen last.

## Main definitions

* `Semantics.changesFrom` — how often a list of values changes
* `Semantics.Linked` — the entries lead from one value to another

## Main results

* `changesFrom_cons` — the first value and the rest
* `linked_append_singleton` — a linked log with one more entry
-/

set_option autoImplicit false

namespace Semantics

variable {α γ : Type*}

/-- How often the values change, after the one seen last. -/
def changesFrom [DecidableEq α] : Option α → List α → ℕ
  | _, [] => 0
  | none, v :: rest => changesFrom (some v) rest
  | some u, v :: rest => (if v = u then 0 else 1) + changesFrom (some v) rest

/-- The entries of a log lead from the value `first` to the value `last`. -/
def Linked (old : γ → Option α) (new : γ → α) : Option α → List γ → Option α → Prop
  | first, [], last => first = last
  | first, c :: rest, last => old c = first ∧ Linked old new (some (new c)) rest last

theorem changesFrom_cons [DecidableEq α] (last : Option α) (v : α) (rest : List α) :
    changesFrom last (v :: rest) = changesFrom last [v] + changesFrom (some v) rest := by
  cases last with
  | none => simp [changesFrom]
  | some u => simp [changesFrom]

/-- A log with one more entry leads to the value of this entry. -/
theorem linked_append_singleton {old : γ → Option α} {new : γ → α} {first last : Option α}
    {log : List γ} {c : γ} :
    Linked old new first (log ++ [c]) last ↔
      Linked old new first log (old c) ∧ last = some (new c) := by
  induction log generalizing first with
  | nil =>
    constructor
    · rintro ⟨hold, hnew⟩
      exact ⟨hold.symm, hnew.symm⟩
    · rintro ⟨hold, hnew⟩
      exact ⟨hold.symm, hnew.symm⟩
  | cons d rest ih =>
    rw [List.cons_append, Linked, Linked, ih, and_assoc]

end Semantics
