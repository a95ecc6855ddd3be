import Mathlib.Data.List.Basic
import Mathlib.Algebra.Order.Ring.Int
import PpssppDfx.Semantics.Occurrence

/-!
# Writing a list of cells

Cells at integer addresses, and what they hold after a list was written from an address on.

## Main results

* `overwrite_append` — two writes that follow each other are one
* `overwrite_of_not_mem` — a write changes nothing outside its cells
* `slice_overwrite` — what was written is what is read
-/

set_option autoImplicit false

namespace Semantics

variable {β : Type*}

/-- The cells after a list was written from an address on. -/
def overwrite (mem : ℤ → β) (a : ℤ) (cells : List β) : ℤ → β := fun x =>
  if a ≤ x then (cells[(x - a).toNat]?).getD (mem x) else mem x

variable {mem : ℤ → β} {a x : ℤ}

@[simp] theorem overwrite_nil (mem : ℤ → β) (a : ℤ) : overwrite mem a [] = mem := by
  funext x
  simp [overwrite]

theorem overwrite_of_not_mem {cells : List β} (h : ¬ (a ≤ x ∧ x < a + cells.length)) :
    overwrite mem a cells x = mem x := by
  unfold overwrite
  split
  · rename_i hle
    have hlength : cells.length ≤ (x - a).toNat := by
      by_contra hlt
      exact h ⟨hle, by omega⟩
    rw [List.getElem?_eq_none hlength]
    rfl
  · rfl

theorem overwrite_append (mem : ℤ → β) (a : ℤ) (front back : List β) :
    overwrite (overwrite mem a front) (a + front.length) back =
      overwrite mem a (front ++ back) := by
  funext x
  by_cases hback : a + front.length ≤ x
  · -- the first write does not reach this far
    have hfront : overwrite mem a front x = mem x :=
      overwrite_of_not_mem fun hmem => absurd hmem.2 (by omega)
    have hindex : (x - a).toNat = front.length + (x - (a + front.length)).toNat := by omega
    rw [overwrite, if_pos hback, hfront, overwrite, if_pos (by omega), hindex,
      List.getElem?_append_right (by omega), Nat.add_sub_cancel_left]
  · rw [overwrite, if_neg hback, overwrite, overwrite]
    by_cases hle : a ≤ x
    · rw [if_pos hle, if_pos hle, List.getElem?_append_left (by omega)]
    · rw [if_neg hle, if_neg hle]

theorem overwrite_overwrite (mem : ℤ → β) (a : ℤ) (cells : List β) :
    overwrite (overwrite mem a cells) a cells = overwrite mem a cells := by
  funext x
  by_cases hmem : a ≤ x ∧ x < a + cells.length
  · have hindex : (x - a).toNat < cells.length := by omega
    simp only [overwrite, if_pos hmem.1, List.getElem?_eq_getElem hindex, Option.getD_some]
  · rw [overwrite_of_not_mem hmem]

/-- The cells are read where they were written. -/
theorem slice_overwrite (ha : 0 ≤ a) (cells : List β) :
    slice (fun n => overwrite mem a cells n) a.toNat cells.length = cells := by
  apply List.ext_getElem (by rw [length_slice])
  intro i hi hi'
  have hindex : (((a.toNat + i : ℕ) : ℤ) - a).toNat = i := by omega
  simp only [slice, List.getElem_map, List.getElem_range', one_mul, overwrite, hindex,
    List.getElem?_eq_getElem hi', Option.getD_some]
  rw [if_pos (by omega)]

theorem slice_overwrite_of_disjoint {cells : List β} {b n : ℕ}
    (hdisjoint : (b : ℤ) + n ≤ a ∨ a + cells.length ≤ b) :
    slice (fun n => overwrite mem a cells n) b n = slice (fun n => mem n) b n := by
  refine List.map_congr_left fun i hi => ?_
  obtain ⟨hlo, hhi⟩ := List.mem_range'_1.mp hi
  exact overwrite_of_not_mem (by omega)

end Semantics
