import Mathlib.Data.List.Basic

/-!
# Sequential orders

An operation acts on a state, and is legal in some states only. A list of operations is a
sequential order from a state if each of them is legal where it stands.

## Main definitions

* `SerialSpec.run` — the state after a list of operations
* `SerialSpec.Serial` — a list of operations that are legal in turn

## Main results

* `SerialSpec.Serial.simulate` — orders are carried over by a relation that every operation
  keeps
-/

set_option autoImplicit false

namespace Semantics

/-- What an operation does, and where it is legal. -/
structure SerialSpec (σ ω : Type*) where
  apply : ω → σ → σ
  Legal : ω → σ → Prop

namespace SerialSpec

variable {σ ω : Type*} (spec : SerialSpec σ ω)

def run : List ω → σ → σ
  | [], a => a
  | op :: ops, a => run ops (spec.apply op a)

/-- Every operation is legal where it stands. -/
def Serial : List ω → σ → Prop
  | [], _ => True
  | op :: ops, a => spec.Legal op a ∧ Serial ops (spec.apply op a)

variable {spec} {op : ω} {ops rest : List ω} {a b : σ}

@[simp] theorem run_nil : spec.run [] a = a := rfl

@[simp] theorem run_cons : spec.run (op :: ops) a = spec.run ops (spec.apply op a) := rfl

@[simp] theorem serial_nil : spec.Serial [] a := trivial

@[simp] theorem serial_cons :
    spec.Serial (op :: ops) a ↔ spec.Legal op a ∧ spec.Serial ops (spec.apply op a) := Iff.rfl

theorem run_append : spec.run (ops ++ rest) a = spec.run rest (spec.run ops a) := by
  induction ops generalizing a with
  | nil => rfl
  | cons op ops ih => exact ih

theorem serial_append :
    spec.Serial (ops ++ rest) a ↔ spec.Serial ops a ∧ spec.Serial rest (spec.run ops a) := by
  induction ops generalizing a with
  | nil => simp
  | cons op ops ih =>
    rw [List.cons_append, serial_cons, serial_cons, run_cons, ih, and_assoc]

/-- An operation that is legal at the end prolongs the order. -/
theorem Serial.concat (h : spec.Serial ops a) (hlegal : spec.Legal op (spec.run ops a)) :
    spec.Serial (ops ++ [op]) a :=
  serial_append.mpr ⟨h, hlegal, trivial⟩

theorem run_concat : spec.run (ops ++ [op]) a = spec.apply op (spec.run ops a) := run_append

/-- A relation that every operation keeps, and under which it stays legal, carries the order
over. -/
theorem Serial.simulate {R : σ → σ → Prop}
    (hkeep : ∀ op ∈ ops, ∀ a b, R a b → spec.Legal op a →
      spec.Legal op b ∧ R (spec.apply op a) (spec.apply op b))
    (h : spec.Serial ops a) (hab : R a b) :
    spec.Serial ops b ∧ R (spec.run ops a) (spec.run ops b) := by
  induction ops generalizing a b with
  | nil => exact ⟨trivial, hab⟩
  | cons op ops ih =>
    obtain ⟨hlegal, hrest⟩ := serial_cons.mp h
    obtain ⟨hlegal', hab'⟩ := hkeep op List.mem_cons_self a b hab hlegal
    obtain ⟨hrest', hrun⟩ := ih (fun op hop => hkeep op (List.mem_cons_of_mem _ hop)) hrest hab'
    exact ⟨⟨hlegal', hrest'⟩, hrun⟩

end SerialSpec

end Semantics
