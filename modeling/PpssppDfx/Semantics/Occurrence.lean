import Mathlib.Data.List.Infix
import Mathlib.Data.Nat.Notation

/-!
# Indices and occurrences

The indices of an interval at which a predicate holds, in ascending order, and the
occurrences of a pattern in a list. A list may be a slice of a function on the naturals,
such as a memory.

## Main definitions

* `indices p lo hi` — the indices of `[lo, hi)` at which `p` holds
* `OccursAt pattern data i` — the pattern stands in the data at index `i`
* `findFrom pattern data start` — the first such index from `start` on
* `slice f a n` — the values of `f` at the `n` points from `a` on

## Main results

* `indices_append`, `indices_cons` — an interval is cut at a point, or at its first index
* `filterMap_eq_iff` — a map that keeps more than another one keeps the same of a list
* `occursAt_slice` — occurrences in a slice are occurrences in the function
-/

set_option autoImplicit false

namespace Semantics

variable {α : Type*}

/-! ## Indices -/

/-- The indices of `[lo, hi)` at which `p` holds, in ascending order. -/
def indices (p : ℕ → Prop) [DecidablePred p] (lo hi : ℕ) : List ℕ :=
  (List.range' lo (hi - lo)).filter fun i => p i

section Indices

variable {p q : ℕ → Prop} [DecidablePred p] [DecidablePred q] {lo mid hi i : ℕ}

theorem indices_pairwise (p : ℕ → Prop) [DecidablePred p] (lo hi : ℕ) :
    (indices p lo hi).Pairwise (· < ·) :=
  (List.pairwise_lt_range' (s := lo) (n := hi - lo)).filter _

theorem indices_congr (h : ∀ i, lo ≤ i → i < hi → (p i ↔ q i)) :
    indices p lo hi = indices q lo hi := by
  refine List.filter_congr fun i hi' => ?_
  obtain ⟨hlo, hlt⟩ := List.mem_range'_1.mp hi'
  exact decide_eq_decide.mpr (h i hlo (by omega))

theorem indices_append (hlo : lo ≤ mid) (hhi : mid ≤ hi) :
    indices p lo mid ++ indices p mid hi = indices p lo hi := by
  have hrange : List.range' lo (hi - lo) =
      List.range' lo (mid - lo) ++ List.range' mid (hi - mid) := by
    have hsplit := List.range'_append_1 (s := lo) (m := mid - lo) (n := hi - mid)
    rw [show lo + (mid - lo) = mid by omega,
      show mid - lo + (hi - mid) = hi - lo by omega] at hsplit
    exact hsplit.symm
  rw [indices, indices, indices, hrange, List.filter_append]

theorem indices_eq_nil (h : ∀ i, lo ≤ i → i < hi → ¬ p i) : indices p lo hi = [] := by
  refine List.filter_eq_nil_iff.mpr fun i hi' => ?_
  obtain ⟨hlo, hlt⟩ := List.mem_range'_1.mp hi'
  simpa using h i hlo (by omega)

/-- Two intervals from one point have the same indices if neither end cuts one off. -/
theorem indices_eq_of_lt {hi' : ℕ} (h : ∀ i, lo ≤ i → p i → i < hi)
    (h' : ∀ i, lo ≤ i → p i → i < hi') : indices p lo hi = indices p lo hi' := by
  wlog hle : hi ≤ hi' generalizing hi hi'
  · exact (this h' h (Nat.le_of_not_le hle)).symm
  by_cases hlo : lo ≤ hi
  · have hnone : indices p hi hi' = [] :=
      indices_eq_nil fun i hge _ hi => Nat.not_lt_of_le hge (h i (hlo.trans hge) hi)
    rw [← indices_append hlo hle, hnone, List.append_nil]
  · rw [indices_eq_nil fun i hge hlt _ => hlo (hge.trans hlt.le),
      indices_eq_nil fun i hge _ hi => hlo (hge.trans (h i hge hi).le)]

/-- The first index at which the predicate holds, and the later ones. -/
theorem indices_cons (hlo : lo ≤ i) (hhi : i < hi) (hfirst : ∀ j, lo ≤ j → j < i → ¬ p j)
    (hp : p i) : indices p lo hi = i :: indices p (i + 1) hi := by
  have hbefore : indices p lo i = [] := indices_eq_nil hfirst
  have hhere : indices p i (i + 1) = [i] := by simp [indices, hp]
  rw [← indices_append hlo (Nat.le_of_lt hhi), ← indices_append (Nat.le_succ i) hhi,
    hbefore, hhere]
  rfl

/-- Indices relative to a base are indices of the shifted interval. -/
theorem map_add_indices (base : ℕ) (p : ℕ → Prop) [DecidablePred p] (lo hi : ℕ) :
    (indices (fun i => p (base + i)) lo hi).map (base + ·) = indices p (base + lo) (base + hi) := by
  have hrange : List.range' (base + lo) (base + hi - (base + lo)) =
      (List.range' lo (hi - lo)).map (base + ·) := by
    rw [List.map_add_range', show base + hi - (base + lo) = hi - lo by omega]
  rw [indices, indices, hrange, List.filter_map]
  rfl

end Indices

/-! ## Kept elements -/

section Kept

variable {α β : Type*} {f g : α → Option β} {as : List α}

theorem filterMap_sublist (h : ∀ a ∈ as, ∀ b, g a = some b → f a = some b) :
    (as.filterMap g).Sublist (as.filterMap f) := by
  induction as with
  | nil => exact List.Sublist.refl _
  | cons a as ih =>
    have htail := ih fun a' ha' => h a' (List.mem_cons_of_mem a ha')
    rw [List.filterMap_cons, List.filterMap_cons]
    cases hg : g a with
    | some b =>
      rw [h a List.mem_cons_self b hg]
      exact htail.cons_cons b
    | none =>
      cases f a with
      | none => exact htail
      | some b => exact htail.cons b

/-- Where one map keeps all that another one keeps, they keep the same of a list if they agree on
its members. -/
theorem filterMap_eq_iff (h : ∀ a ∈ as, ∀ b, g a = some b → f a = some b) :
    as.filterMap f = as.filterMap g ↔ ∀ a ∈ as, f a = g a := by
  refine ⟨fun heq => ?_, List.filterMap_congr⟩
  induction as with
  | nil => exact fun a ha => absurd ha List.not_mem_nil
  | cons a as ih =>
    have htail : ∀ a' ∈ as, ∀ b, g a' = some b → f a' = some b := fun a' ha' =>
      h a' (List.mem_cons_of_mem a ha')
    rw [List.filterMap_cons, List.filterMap_cons] at heq
    rw [List.forall_mem_cons]
    cases hg : g a with
    | some b =>
      have hf := h a List.mem_cons_self b hg
      rw [hf, hg] at heq
      exact ⟨hf, ih htail (List.cons.inj heq).2⟩
    | none =>
      cases hf : f a with
      | none =>
        rw [hf, hg] at heq
        exact ⟨rfl, ih htail heq⟩
      | some b =>
        -- the longer list would be the shorter one
        rw [hf, hg] at heq
        have hcons : b :: as.filterMap f = as.filterMap g := heq
        have hlength := (filterMap_sublist htail).length_le
        rw [← hcons, List.length_cons] at hlength
        omega

end Kept

/-- A filter keeps the first elements of a list exactly if they all pass it. -/
theorem take_filter_eq_take_iff {α : Type*} {keep : α → Prop} [DecidablePred keep] {l : List α}
    {n : ℕ} : (l.filter fun a => keep a).take n = l.take n ↔ ∀ a ∈ l.take n, keep a := by
  constructor
  · intro heq a ha
    have hmem : a ∈ l.filter fun a => keep a := List.mem_of_mem_take (heq.symm ▸ ha)
    simpa using (List.mem_filter.mp hmem).2
  · intro hall
    have hfirst : (l.take n).filter (fun a => keep a) = l.take n :=
      List.filter_eq_self.mpr fun a ha => decide_eq_true (hall a ha)
    have hsplit : l.filter (fun a => keep a) = l.take n ++ (l.drop n).filter fun a => keep a := by
      rw [← hfirst, ← List.filter_append, List.take_append_drop]
    rw [hsplit]
    by_cases hlength : n ≤ l.length
    · rw [List.take_append_of_le_length (by rw [List.length_take]; omega), List.take_take,
        Nat.min_self]
    · rw [List.drop_of_length_le (by omega), List.filter_nil, List.append_nil, List.take_take,
        Nat.min_self]

/-! ## Occurrences -/

variable {pattern data : List α} {start i : ℕ}

/-- The pattern stands in the data at the index. -/
def OccursAt (pattern data : List α) (i : ℕ) : Prop := pattern <+: data.drop i

instance [DecidableEq α] (pattern data : List α) : DecidablePred (OccursAt pattern data) :=
  fun i => inferInstanceAs (Decidable (pattern <+: data.drop i))

/-- The first index from `start` on at which the pattern stands. -/
def findFrom [DecidableEq α] (pattern data : List α) (start : ℕ) : Option ℕ :=
  (List.range' start (data.length + 1 - start)).find? fun i => OccursAt pattern data i

/-- A pattern that is not empty stands only where it fits. -/
theorem OccursAt.add_length_le (hne : pattern ≠ []) (h : OccursAt pattern data i) :
    i + pattern.length ≤ data.length := by
  have hlength : pattern.length ≤ data.length - i := by
    simpa [List.length_drop] using h.length_le
  have hpos : 0 < pattern.length := List.length_pos_of_ne_nil hne
  omega

theorem findFrom_eq_none [DecidableEq α] (h : findFrom pattern data start = none)
    (hne : pattern ≠ []) :
    ∀ j, start ≤ j → ¬ OccursAt pattern data j := by
  intro j hstart hj
  have hfits := hj.add_length_le hne
  have hall := List.find?_eq_none.mp h j (List.mem_range'_1.mpr ⟨hstart, by omega⟩)
  exact hall (decide_eq_true hj)

/-- What is found is the first occurrence. -/
theorem findFrom_eq_some [DecidableEq α] (h : findFrom pattern data start = some i) :
    start ≤ i ∧ OccursAt pattern data i ∧ ∀ j, start ≤ j → j < i → ¬ OccursAt pattern data j := by
  obtain ⟨hi, before, after, hrange, hbefore⟩ := List.find?_eq_some_iff_append.mp h
  have hmem : i ∈ List.range' start (data.length + 1 - start) := by simp [hrange]
  refine ⟨(List.mem_range'_1.mp hmem).1, by simpa using hi, fun j hstart hj => ?_⟩
  have hlt := (List.mem_range'_1.mp hmem).2
  -- What comes before the index in the range are the smaller ones.
  have hjmem : j ∈ before ++ i :: after := by
    rw [← hrange]
    exact List.mem_range'_1.mpr ⟨hstart, by omega⟩
  have hsorted : (before ++ i :: after).Pairwise (· < ·) := hrange ▸ List.pairwise_lt_range'
  rcases List.mem_append.mp hjmem with hjbefore | hjafter
  · simpa using hbefore j hjbefore
  · have hle : i ≤ j := by
      rcases List.mem_cons.mp hjafter with rfl | hjafter
      · exact Nat.le_refl _
      · exact Nat.le_of_lt
          ((List.pairwise_cons.mp (List.pairwise_append.mp hsorted).2.1).1 j hjafter)
    omega

/-! ## Slices of a function -/

/-- The values of `f` at the `n` points from `a` on. -/
def slice (f : ℕ → α) (a n : ℕ) : List α := (List.range' a n).map f

section Slice

variable {f : ℕ → α} {a n : ℕ}

@[simp] theorem length_slice : (slice f a n).length = n := by simp [slice]

theorem drop_slice : (slice f a n).drop i = slice f (a + i) (n - i) := by
  simp [slice, ← List.map_drop, List.drop_range']

theorem take_slice (h : i ≤ n) : (slice f a n).take i = slice f a i := by
  simp [slice, ← List.map_take, List.take_range'_of_length_ge h]

theorem slice_succ (f : ℕ → α) (a n : ℕ) : slice f a (n + 1) = f a :: slice f (a + 1) n := by
  rw [slice, List.range'_succ, List.map_cons]
  rfl

theorem slice_append (m : ℕ) : slice f a m ++ slice f (a + m) n = slice f a (m + n) := by
  rw [slice, slice, slice, ← List.map_append, List.range'_append_1]

/-- The prefixes of a slice are the shorter slices from the same point. -/
theorem prefix_slice {l : List α} :
    l <+: slice f a n ↔ l.length ≤ n ∧ slice f a l.length = l := by
  constructor
  · intro h
    have hlength : l.length ≤ n := by simpa using h.length_le
    refine ⟨hlength, ?_⟩
    rw [← take_slice hlength]
    exact (List.prefix_iff_eq_take.mp h).symm
  · rintro ⟨hlength, heq⟩
    rw [List.prefix_iff_eq_take, take_slice hlength, heq]

end Slice

/-- The pattern stands in a slice where it fits into it and stands in the function. -/
theorem occursAt_slice {f : ℕ → α} {a n : ℕ} (hne : pattern ≠ []) :
    OccursAt pattern (slice f a n) i ↔
      i + pattern.length ≤ n ∧ slice f (a + i) pattern.length = pattern := by
  have hpos : 0 < pattern.length := List.length_pos_of_ne_nil hne
  rw [OccursAt, drop_slice, prefix_slice]
  constructor
  · rintro ⟨hfits, hstands⟩
    exact ⟨by omega, hstands⟩
  · rintro ⟨hfits, hstands⟩
    exact ⟨by omega, hstands⟩

end Semantics
