import Mathlib.Data.Int.Notation
import Mathlib.Data.List.Induction

/-!
# The first of the largest

A scan that keeps an item until it meets a larger one ends with the first of the largest
items.
-/

set_option autoImplicit false

namespace Semantics

variable {α : Type*} {size : α → ℤ} {l : List α} {b x : α}

/-- Keep the first of the largest items. -/
def keepLarger (size : α → ℤ) (best : Option α) (x : α) : Option α :=
  match best with
  | none => some x
  | some b => if size x > size b then some x else some b

/-- The item is larger than all before it and no smaller than any after it. -/
def IsFirstLargest (size : α → ℤ) (l : List α) (b : α) : Prop :=
  ∃ before after, l = before ++ b :: after ∧ (∀ a ∈ before, size a < size b) ∧
    ∀ a ∈ after, size a ≤ size b

theorem IsFirstLargest.mem (h : IsFirstLargest size l b) : b ∈ l := by
  obtain ⟨before, after, rfl, -, -⟩ := h
  exact List.mem_append_right _ List.mem_cons_self

/-- A later item that is no larger changes nothing. -/
theorem IsFirstLargest.concat_of_le (h : IsFirstLargest size l b) (hx : size x ≤ size b) :
    IsFirstLargest size (l ++ [x]) b := by
  obtain ⟨before, after, rfl, hbefore, hafter⟩ := h
  refine ⟨before, after ++ [x], by simp, hbefore, fun a ha => ?_⟩
  rcases List.mem_append.mp ha with ha | ha
  · exact hafter a ha
  · obtain rfl := List.mem_singleton.mp ha
    exact hx

/-- A later item that is larger takes its place. -/
theorem IsFirstLargest.concat_of_lt (h : IsFirstLargest size l b) (hx : size b < size x) :
    IsFirstLargest size (l ++ [x]) x := by
  obtain ⟨before, after, rfl, hbefore, hafter⟩ := h
  refine ⟨before ++ b :: after, [], rfl, fun a ha => ?_, by simp⟩
  rcases List.mem_append.mp ha with ha | ha
  · exact Int.lt_trans (hbefore a ha) hx
  · rcases List.mem_cons.mp ha with rfl | ha
    · exact hx
    · exact Int.lt_of_le_of_lt (hafter a ha) hx

/-- The scan of a nonempty list ends with the first of the largest items. -/
theorem exists_foldl_keepLarger (size : α → ℤ) (hne : l ≠ []) :
    ∃ b, l.foldl (keepLarger size) none = some b ∧ IsFirstLargest size l b := by
  induction l using List.reverseRecOn with
  | nil => exact absurd rfl hne
  | append_singleton l x ih =>
    rw [List.foldl_append, List.foldl_cons, List.foldl_nil]
    by_cases hl : l = []
    · subst hl
      exact ⟨x, rfl, [], [], rfl, by simp, by simp⟩
    · obtain ⟨b, hb, hlargest⟩ := ih hl
      by_cases hx : size b < size x
      · exact ⟨x, by simp [hb, keepLarger, hx], hlargest.concat_of_lt hx⟩
      · exact ⟨b, by simp [hb, keepLarger, hx], hlargest.concat_of_le (Int.not_lt.mp hx)⟩

/-- There is one first of the largest items. -/
theorem IsFirstLargest.eq {b' : α} (h : IsFirstLargest size l b)
    (h' : IsFirstLargest size l b') : b = b' := by
  obtain ⟨before, after, rfl, hbefore, hafter⟩ := h
  obtain ⟨before', after', heq, hbefore', hafter'⟩ := h'
  rcases List.append_eq_append_iff.mp heq with ⟨mid, rfl, hmid⟩ | ⟨mid, rfl, hmid⟩
  · cases mid with
    | nil => exact (List.cons.inj hmid).1
    | cons c mid =>
      obtain ⟨rfl, rfl⟩ := List.cons.inj hmid
      have hlt := hbefore' b (by simp)
      have hle := hafter b' (by simp)
      omega
  · cases mid with
    | nil => exact (List.cons.inj hmid).1.symm
    | cons c mid =>
      obtain ⟨rfl, rfl⟩ := List.cons.inj hmid
      have hlt := hbefore b' (by simp)
      have hle := hafter' b (by simp)
      omega

theorem foldl_keepLarger_eq_some_iff :
    l.foldl (keepLarger size) none = some b ↔ IsFirstLargest size l b := by
  constructor
  · intro h
    have hne : l ≠ [] := by
      rintro rfl
      exact absurd h (by simp)
    obtain ⟨c, hc, hlargest⟩ := exists_foldl_keepLarger size hne
    obtain rfl := Option.some.inj (hc.symm.trans h)
    exact hlargest
  · intro h
    obtain ⟨c, hc, hlargest⟩ := exists_foldl_keepLarger size
      (List.ne_nil_of_mem h.mem)
    rw [hc, hlargest.eq h]

end Semantics
