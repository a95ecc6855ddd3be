import Mathlib.Data.List.Nodup

/-!
# Passes over keyed items

A loop handles the items of a list in order. An error in one item ends the loop and leaves
what was done so far. Suppose that handling an item touches only the slot of the item's key and
that no two items have the same key. Then the loop does to every slot what handling its item
alone does, and it fails only where an item alone fails.

## Main definitions

* `pass` — the loop
* `Slotwise` — handling an item is a local effect on the item's slot

## Main results

* `Slotwise.read_pass_of_mem`, `Slotwise.read_pass_of_notMem` — the slots after a pass
* `Slotwise.effect_of_pass_eq_ok` — what a pass that gets to its end says about each item
* `Slotwise.exists_of_pass_eq_error` — the item at which a pass stops
-/

set_option autoImplicit false

namespace Semantics

variable {σ ι κ β ε α : Type*}

/-- Handle the items in order, until one of them fails. -/
def pass (handle : σ → ι → σ × Except ε α) : σ → List ι → σ × Except ε (List α)
  | s, [] => (s, .ok [])
  | s, i :: rest =>
    match (handle s i).2 with
    | .error e => ((handle s i).1, .error e)
    | .ok a =>
      ((pass handle (handle s i).1 rest).1, (pass handle (handle s i).1 rest).2.map (a :: ·))

section Pass

variable {handle : σ → ι → σ × Except ε α} {s : σ} {i : ι} {rest : List ι}

theorem pass_cons_of_error {e : ε} (h : (handle s i).2 = .error e) :
    pass handle s (i :: rest) = ((handle s i).1, .error e) := by
  rw [pass, h]

theorem pass_cons_of_ok {a : α} (h : (handle s i).2 = .ok a) :
    pass handle s (i :: rest) =
      ((pass handle (handle s i).1 rest).1,
        (pass handle (handle s i).1 rest).2.map (a :: ·)) := by
  rw [pass, h]

/-- What handling an item keeps, a pass keeps, also one that fails. -/
theorem pass_keeps {Inv : σ → Prop} (h : ∀ s i, Inv s → Inv (handle s i).1) {items : List ι}
    (hinv : Inv s) : Inv (pass handle s items).1 := by
  induction items generalizing s with
  | nil => exact hinv
  | cons i rest ih =>
    cases hanswer : (handle s i).2 with
    | error e =>
      rw [pass_cons_of_error hanswer]
      exact h s i hinv
    | ok a =>
      rw [pass_cons_of_ok hanswer]
      exact ih (h s i hinv)

end Pass

/-- From the states that meet `Inv`, handling an item has an effect on the slot of its key
that the slot alone decides, and no effect on the other slots. -/
structure Slotwise (handle : σ → ι → σ × Except ε α) (Inv : σ → Prop) (read : σ → κ → β)
    (key : ι → κ) (effect : ι → β → β × Except ε α) : Prop where
  keeps : ∀ s i, Inv s → Inv (handle s i).1
  frame : ∀ s i k, Inv s → k ≠ key i → read (handle s i).1 k = read s k
  acts : ∀ s i, Inv s → read (handle s i).1 (key i) = (effect i (read s (key i))).1
  answers : ∀ s i, Inv s → (handle s i).2 = (effect i (read s (key i))).2

namespace Slotwise

variable {handle : σ → ι → σ × Except ε α} {Inv : σ → Prop} {read : σ → κ → β} {key : ι → κ}
  {effect : ι → β → β × Except ε α} {s : σ} {items : List ι} {i : ι} {k : κ}

/-- A pass leaves the slots alone that no item has. -/
theorem read_pass_of_notMem (h : Slotwise handle Inv read key effect) (hinv : Inv s)
    (hk : k ∉ items.map key) : read (pass handle s items).1 k = read s k := by
  induction items generalizing s with
  | nil => rfl
  | cons i rest ih =>
    obtain ⟨hne, hrest⟩ := List.ne_and_not_mem_of_not_mem_cons hk
    cases hanswer : (handle s i).2 with
    | error e =>
      rw [pass_cons_of_error hanswer]
      exact h.frame s i k hinv hne
    | ok a =>
      rw [pass_cons_of_ok hanswer]
      calc read (pass handle (handle s i).1 rest).1 k
          = read (handle s i).1 k := ih (h.keeps s i hinv) hrest
        _ = read s k := h.frame s i k hinv hne

/-- Handling an item leaves the slots of the items after it alone. -/
theorem read_handle (h : Slotwise handle Inv read key effect) (hinv : Inv s) {rest : List ι}
    (hnotMem : key i ∉ rest.map key) {j : ι} (hj : j ∈ rest) :
    read (handle s i).1 (key j) = read s (key j) := by
  apply h.frame s i (key j) hinv
  intro heq
  exact hnotMem (heq ▸ List.mem_map_of_mem hj)

/-- In a pass that gets to its end, every item alone is handled. -/
theorem effect_of_pass_eq_ok (h : Slotwise handle Inv read key effect) (hinv : Inv s)
    (hnodup : (items.map key).Nodup) {answers : List α}
    (hok : (pass handle s items).2 = .ok answers) (hi : i ∈ items) :
    ∃ a, (effect i (read s (key i))).2 = .ok a := by
  induction items generalizing s answers with
  | nil => cases hi
  | cons j rest ih =>
    obtain ⟨hnotMem, hrest⟩ := List.nodup_cons.mp hnodup
    cases hres : (handle s j).2 with
    | error e =>
      rw [pass_cons_of_error hres] at hok
      cases hok
    | ok a =>
      rw [pass_cons_of_ok hres] at hok
      rcases List.mem_cons.mp hi with rfl | hmem
      · exact ⟨a, (h.answers s i hinv).symm.trans hres⟩
      · cases hpass : (pass handle (handle s j).1 rest).2 with
        | error e =>
          rw [hpass] at hok
          cases hok
        | ok answers =>
          obtain ⟨a', ha'⟩ := ih (h.keeps s j hinv) hrest hpass hmem
          exact ⟨a', h.read_handle hinv hnotMem hmem ▸ ha'⟩

/-- After a pass that got to its end, the slot of an item is as handling the item alone
leaves it. -/
theorem read_pass_of_mem (h : Slotwise handle Inv read key effect) (hinv : Inv s)
    (hnodup : (items.map key).Nodup) {answers : List α}
    (hok : (pass handle s items).2 = .ok answers) (hi : i ∈ items) :
    read (pass handle s items).1 (key i) = (effect i (read s (key i))).1 := by
  induction items generalizing s answers with
  | nil => cases hi
  | cons j rest ih =>
    obtain ⟨hnotMem, hrest⟩ := List.nodup_cons.mp hnodup
    cases hres : (handle s j).2 with
    | error e =>
      rw [pass_cons_of_error hres] at hok
      cases hok
    | ok a =>
      rw [pass_cons_of_ok hres] at hok ⊢
      rcases List.mem_cons.mp hi with rfl | hmem
      -- the items behind the first one leave its slot alone
      · rw [h.read_pass_of_notMem (h.keeps s i hinv) hnotMem]
        exact h.acts s i hinv
      · cases hpass : (pass handle (handle s j).1 rest).2 with
        | error e =>
          rw [hpass] at hok
          cases hok
        | ok answers =>
          rw [ih (h.keeps s j hinv) hrest hpass hmem, h.read_handle hinv hnotMem hmem]

/-- A pass that fails has handled the items before the one at which it stopped; the slots of
the others are as they were. -/
theorem read_pass_eq_or (h : Slotwise handle Inv read key effect) (hinv : Inv s)
    (hnodup : (items.map key).Nodup) (hi : i ∈ items) :
    read (pass handle s items).1 (key i) = (effect i (read s (key i))).1 ∨
      read (pass handle s items).1 (key i) = read s (key i) := by
  induction items generalizing s with
  | nil => cases hi
  | cons j rest ih =>
    obtain ⟨hnotMem, hrest⟩ := List.nodup_cons.mp hnodup
    cases hres : (handle s j).2 with
    | error e =>
      rw [pass_cons_of_error hres]
      rcases List.mem_cons.mp hi with rfl | hmem
      · exact .inl (h.acts s i hinv)
      · exact .inr (h.read_handle hinv hnotMem hmem)
    | ok a =>
      rw [pass_cons_of_ok hres]
      rcases List.mem_cons.mp hi with rfl | hmem
      · refine .inl ?_
        rw [h.read_pass_of_notMem (h.keeps s i hinv) hnotMem]
        exact h.acts s i hinv
      · rw [← h.read_handle hinv hnotMem hmem]
        exact ih (h.keeps s j hinv) hrest hmem

/-- A pass that fails stops at an item that fails alone, and leaves the slot of that item as
the item alone does. -/
theorem exists_of_pass_eq_error (h : Slotwise handle Inv read key effect) (hinv : Inv s)
    (hnodup : (items.map key).Nodup) {e : ε} (herror : (pass handle s items).2 = .error e) :
    ∃ i ∈ items, (effect i (read s (key i))).2 = .error e ∧
      read (pass handle s items).1 (key i) = (effect i (read s (key i))).1 := by
  induction items generalizing s with
  | nil => cases herror
  | cons j rest ih =>
    obtain ⟨hnotMem, hrest⟩ := List.nodup_cons.mp hnodup
    cases hres : (handle s j).2 with
    | error e' =>
      rw [pass_cons_of_error hres] at herror ⊢
      cases herror
      exact ⟨j, List.mem_cons_self, (h.answers s j hinv).symm.trans hres, h.acts s j hinv⟩
    | ok a =>
      rw [pass_cons_of_ok hres] at herror ⊢
      cases hpass : (pass handle (handle s j).1 rest).2 with
      | ok answers =>
        rw [hpass] at herror
        cases herror
      | error e' =>
        rw [hpass] at herror
        cases herror
        obtain ⟨i, hi, hfails, hread⟩ := ih (h.keeps s j hinv) hrest hpass
        rw [h.read_handle hinv hnotMem hi] at hfails hread
        exact ⟨i, List.mem_cons_of_mem _ hi, hfails, hread⟩

end Slotwise

end Semantics
