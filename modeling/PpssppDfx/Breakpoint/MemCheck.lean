import Mathlib.Data.Int.Notation
import Mathlib.Data.List.Basic

/-!
# The emulator's watchpoints

The emulator keeps its watchpoints in a list and tells them apart by address and size:
adding one that is there overwrites it, and removing takes exactly the one named.

## Main results

* `MemTable.add_of_findAt_none`, `MemTable.remove_append` — a watchpoint at an address of its
  own comes last, and removing it restores the table
-/

set_option autoImplicit false

namespace Breakpoint

structure MemCheck where
  address : ℤ
  size : ℤ
  read : Bool
  write : Bool
  change : Bool
  enabled : Bool
  log : Bool
  condition : Option String
  logFormat : Option String
  deriving DecidableEq

abbrev MemTable := List MemCheck

namespace MemTable

variable {t : MemTable} {m : MemCheck} {address size : ℤ}

/-- The watchpoint has this address and size. -/
def Keyed (address size : ℤ) (m : MemCheck) : Prop := m.address = address ∧ m.size = size

instance (address size : ℤ) : DecidablePred (Keyed address size) :=
  fun _ => inferInstanceAs (Decidable (_ ∧ _))

/-- `memory.breakpoint.add`. -/
def add (t : MemTable) (m : MemCheck) : MemTable :=
  if t.any fun old => Keyed m.address m.size old then
    t.map fun old => if Keyed m.address m.size old then m else old
  else t ++ [m]

/-- `memory.breakpoint.remove`. -/
def remove (t : MemTable) (address size : ℤ) : MemTable :=
  t.filter fun old => ¬ Keyed address size old

/-- `find_mem_bp` in the listing of the table: the first watchpoint at the address. -/
def findAt (t : MemTable) (address : ℤ) : Option MemCheck :=
  t.find? fun old => old.address = address

theorem findAt_eq_none : t.findAt address = none ↔ ∀ old ∈ t, old.address ≠ address := by
  simp [findAt]

theorem findAt_append (h : t.findAt m.address = none) : (t ++ [m]).findAt m.address = some m := by
  have hnone : t.find? (fun old => old.address = m.address) = none := h
  simp [findAt, List.find?_append, hnone]

theorem add_of_findAt_none (h : t.findAt m.address = none) : t.add m = t ++ [m] := by
  have hnone : ¬ (t.any fun old => Keyed m.address m.size old) = true := by
    intro hany
    obtain ⟨old, hold, hkeyed⟩ := List.any_eq_true.mp hany
    exact findAt_eq_none.mp h old hold (of_decide_eq_true hkeyed).1
  exact if_neg hnone

theorem remove_of_findAt_none (h : t.findAt address = none) : t.remove address size = t := by
  refine List.filter_eq_self.mpr fun old hold => decide_eq_true fun hkeyed => ?_
  exact findAt_eq_none.mp h old hold hkeyed.1

theorem remove_append (h : t.findAt m.address = none) :
    (t ++ [m]).remove m.address m.size = t := by
  have hkeyed : Keyed m.address m.size m := ⟨rfl, rfl⟩
  have hlast : MemTable.remove [m] m.address m.size = [] := by simp [remove, hkeyed]
  have hsplit : (t ++ [m]).remove m.address m.size =
      t.remove m.address m.size ++ MemTable.remove [m] m.address m.size := List.filter_append ..
  rw [hsplit, remove_of_findAt_none h, hlast, List.append_nil]

/-- Whatever is removed at the address, the rest of the table stays. -/
theorem remove_append_or (h : t.findAt m.address = none) :
    (t ++ [m]).remove m.address size = t ∨ (t ++ [m]).remove m.address size = t ++ [m] := by
  by_cases hsize : size = m.size
  · subst hsize
    exact Or.inl (remove_append h)
  · refine Or.inr (List.filter_eq_self.mpr fun old hold => decide_eq_true fun hkeyed => ?_)
    rcases List.mem_append.mp hold with hold | hold
    · exact findAt_eq_none.mp h old hold hkeyed.1
    · obtain rfl := List.mem_singleton.mp hold
      exact hsize hkeyed.2.symm

end MemTable

end Breakpoint
