import Mathlib.Data.List.Basic
import Mathlib.Logic.Function.Basic

/-!
# Updates at distinct points

A fold that rewrites a function at one point for each element of a list, each time from the
value there. If the points are distinct, each of them is rewritten once.
-/

set_option autoImplicit false

namespace Semantics

open Function

variable {α κ β : Type*} [DecidableEq κ] {point : α → κ} {f : α → β → β} {l : List α}

/-- Rewrite the value at the point of one element. -/
def rewriteAt (point : α → κ) (f : α → β → β) (s : κ → β) (a : α) : κ → β :=
  update s (point a) (f a (s (point a)))

theorem rewriteAt_self (s : κ → β) (a : α) : rewriteAt point f s a (point a) = f a (s (point a)) :=
  update_self _ _ _

theorem rewriteAt_of_ne (s : κ → β) {a : α} {k : κ} (h : k ≠ point a) :
    rewriteAt point f s a k = s k :=
  update_of_ne h _ _

/-- A point that belongs to no element keeps its value. -/
theorem foldl_rewriteAt_of_notMem (s : κ → β) {k : κ} (h : k ∉ l.map point) :
    l.foldl (rewriteAt point f) s k = s k := by
  induction l generalizing s with
  | nil => rfl
  | cons a l ih =>
    rw [List.map_cons, List.mem_cons, not_or] at h
    rw [List.foldl_cons, ih _ h.2, rewriteAt_of_ne s h.1]

/-- The point of an element is rewritten once, from the value that it had. -/
theorem foldl_rewriteAt_of_mem (hnodup : (l.map point).Nodup) (s : κ → β) {a : α} (ha : a ∈ l) :
    l.foldl (rewriteAt point f) s (point a) = f a (s (point a)) := by
  induction l generalizing s with
  | nil => exact absurd ha List.not_mem_nil
  | cons b l ih =>
    obtain ⟨hfresh, hrest⟩ := List.nodup_cons.mp hnodup
    rw [List.foldl_cons]
    rcases List.mem_cons.mp ha with rfl | ha
    · rw [foldl_rewriteAt_of_notMem _ hfresh, rewriteAt_self]
    · have hne : point a ≠ point b := fun heq => hfresh (heq ▸ List.mem_map_of_mem ha)
      rw [ih hrest _ ha, rewriteAt_of_ne s hne]

end Semantics
