import Mathlib.Algebra.Order.Field.Basic
import Mathlib.Data.List.Basic
import Mathlib.Tactic.Linarith
import Mathlib.Tactic.Ring
import PpssppDfx.Semantics.Unwinding

/-!
# Metered responders

A responder that lets inputs through is metered when each one it lets through costs a unit of
some level, and the level rises no faster than a constant slope. What is let through in a
window of time is then paid for by the level at the start of the window and by the rise within
it.

## Main definitions

* `Semantics.Responder.granted` — the inputs that are let through
* `Semantics.Metered` — a level that pays for them

## Main results

* `Metered.countP_granted_le_level` — what is let through up to a time
* `Metered.countP_granted_le` — what is let through in a window
-/

set_option autoImplicit false

namespace Semantics

variable {σ α θ : Type*}

/-- The inputs that are let through. -/
def Responder.granted (m : Responder σ α Bool θ) : σ → List α → List α
  | _, [] => []
  | s, a :: rest =>
    if (m.respond s a).1 then a :: m.granted (m.respond s a).2 rest
    else m.granted (m.respond s a).2 rest

theorem Responder.mem_of_mem_granted (m : Responder σ α Bool θ) {a : α} {s : σ} {inputs : List α}
    (ha : a ∈ m.granted s inputs) : a ∈ inputs := by
  induction inputs generalizing s with
  | nil => exact ha
  | cons b rest ih =>
    rw [Responder.granted] at ha
    split at ha
    · rcases List.mem_cons.mp ha with rfl | hrest
      · exact List.mem_cons_self
      · exact List.mem_cons_of_mem _ (ih hrest)
    · exact List.mem_cons_of_mem _ (ih ha)

/-- No input of a timely list comes before its start. -/
theorem Responder.Timely.le_time [Preorder θ] {m : Responder σ α Bool θ} {t : θ}
    {inputs : List α} (h : m.Timely t inputs) {a : α} (ha : a ∈ inputs) : t ≤ m.time a := by
  induction inputs generalizing t with
  | nil => cases ha
  | cons b rest ih =>
    rcases List.mem_cons.mp ha with rfl | hrest
    · exact h.1
    · exact h.1.trans (ih h.2 hrest)

/-- Nothing is let through in a window that closes before the first input. -/
theorem Responder.countP_granted_of_late [LinearOrder θ] {m : Responder σ α Bool θ}
    {t closes : θ} {s : σ} {a : α} {rest : List α} (p : α → Bool)
    (htimely : m.Timely t (a :: rest))
    (hlate : closes < m.time a) :
    ((m.granted s (a :: rest)).countP fun b => p b && decide (m.time b ≤ closes)) = 0 := by
  rw [List.countP_eq_zero]
  intro b hb
  have hafter : m.time a ≤ m.time b := by
    rcases List.mem_cons.mp (m.mem_of_mem_granted hb) with rfl | hrest
    · exact le_refl _
    · exact htimely.2.le_time hrest
  simp [not_le.mpr (hlate.trans_le hafter)]

variable [Field θ] [LinearOrder θ] [IsStrictOrderedRing θ]

/-- A level, at most `capacity` and rising by at most `slope`, pays for the inputs of one kind
that are let through. -/
structure Metered (m : Responder σ α Bool θ) (own : α → Bool) (Inv : θ → σ → Prop)
    (level : σ → θ → θ) (capacity slope : θ) : Prop where
  nonneg : ∀ {t u s}, Inv t s → t ≤ u → 0 ≤ level s u
  le_capacity : ∀ {t s}, Inv t s → ∀ u, level s u ≤ capacity
  rises : ∀ {t u v s}, Inv t s → t ≤ u → u ≤ v → level s v ≤ level s u + (v - u) * slope
  keeps : ∀ {t s a}, Inv t s → t ≤ m.time a → Inv (m.time a) (m.respond s a).2
  pays : ∀ {t s a}, Inv t s → t ≤ m.time a → own a = true → (m.respond s a).1 = true →
    level (m.respond s a).2 (m.time a) + 1 ≤ level s (m.time a)
  spares : ∀ {t s a}, Inv t s → t ≤ m.time a →
    level (m.respond s a).2 (m.time a) ≤ level s (m.time a)

namespace Metered

variable {m : Responder σ α Bool θ} {own : α → Bool} {Inv : θ → σ → Prop}
  {level : σ → θ → θ} {capacity slope t u opens closes : θ} {s : σ} {inputs : List α}

/-- What is let through up to a time is paid for by the level now and by its rise until then. -/
theorem countP_granted_le_level (h : Metered m own Inv level capacity slope) (hinv : Inv t s)
    (hle : t ≤ u) (htimely : m.Timely u inputs) (hcloses : u ≤ closes) :
    (((m.granted s inputs).countP fun a => own a && decide (m.time a ≤ closes) : ℕ) : θ) ≤
      level s u + (closes - u) * slope := by
  -- the level is carried along the run: each grant lowers it by one
  induction inputs generalizing t u s with
  | nil =>
    have hrise := h.rises hinv hle hcloses
    have hleft := h.nonneg hinv (hle.trans hcloses)
    simp only [Responder.granted, List.countP_nil, Nat.cast_zero]
    linarith
  | cons a rest ih =>
    by_cases hwithin : m.time a ≤ closes
    · obtain ⟨hfirst, hrest⟩ := htimely
      have hreached := hle.trans hfirst
      have htail := ih (h.keeps hinv hreached) (le_refl _) hrest hwithin
      have hrise := h.rises hinv hle hfirst
      have hsplit : (closes - u) * slope =
          (m.time a - u) * slope + (closes - m.time a) * slope := by ring
      rw [Responder.granted, hsplit]
      split
      · rename_i hgranted
        by_cases hown : own a = true
        · have hpaid := h.pays hinv hreached hown hgranted
          rw [List.countP_cons_of_pos (by simp [hown, hwithin]), Nat.cast_add, Nat.cast_one]
          linarith
        · have hspared := h.spares hinv hreached
          rw [List.countP_cons_of_neg (by simp [hown])]
          linarith
      · have hspared := h.spares hinv hreached
        linarith
    · have hrise := h.rises hinv hle hcloses
      have hleft := h.nonneg hinv (hle.trans hcloses)
      rw [Responder.countP_granted_of_late own htimely (not_le.mp hwithin), Nat.cast_zero]
      linarith

/-- What is let through in a window is at most the capacity and the rise within the window. -/
theorem countP_granted_le (h : Metered m own Inv level capacity slope) (hslope : 0 ≤ slope)
    (hinv : Inv t s) (htimely : m.Timely t inputs) (hwindow : opens ≤ closes) :
    (((m.granted s inputs).countP fun a =>
        (own a && decide (opens ≤ m.time a)) && decide (m.time a ≤ closes) : ℕ) : θ) ≤
      capacity + (closes - opens) * slope := by
  have hempty : 0 ≤ capacity + (closes - opens) * slope :=
    add_nonneg ((h.nonneg hinv (le_refl t)).trans (h.le_capacity hinv t))
      (mul_nonneg (sub_nonneg.mpr hwindow) hslope)
  induction inputs generalizing t s with
  | nil => simpa [Responder.granted] using hempty
  | cons a rest ih =>
    by_cases hwithin : m.time a ≤ closes
    · by_cases hopen : opens ≤ m.time a
      -- the first input in the window: from here on all grants up to `closes` are counted
      · have hstart : m.Timely (m.time a) (a :: rest) := ⟨le_refl _, htimely.2⟩
        have hcount := h.countP_granted_le_level hinv htimely.1 hstart hwithin
        have hmono : ((m.granted s (a :: rest)).countP fun a =>
            (own a && decide (opens ≤ m.time a)) && decide (m.time a ≤ closes)) ≤
            (m.granted s (a :: rest)).countP fun a => own a && decide (m.time a ≤ closes) := by
          apply List.countP_mono_left
          intro b _ hb
          simp only [Bool.and_eq_true] at hb ⊢
          exact ⟨hb.1.1, hb.2⟩
        have hshorter : (closes - m.time a) * slope ≤ (closes - opens) * slope :=
          mul_le_mul_of_nonneg_right (sub_le_sub_left hopen closes) hslope
        calc
          _ ≤ _ := Nat.cast_le.mpr hmono
          _ ≤ level s (m.time a) + (closes - m.time a) * slope := hcount
          _ ≤ capacity + (closes - opens) * slope :=
            add_le_add (h.le_capacity hinv _) hshorter
      -- a grant before the window is not counted
      · have htail := ih (h.keeps hinv htimely.1) htimely.2
        rw [Responder.granted]
        split
        · rw [List.countP_cons_of_neg (by simp [hopen])]
          exact htail
        · exact htail
    · rw [Responder.countP_granted_of_late (fun a => own a && decide (opens ≤ m.time a)) htimely
        (not_le.mp hwithin), Nat.cast_zero]
      exact hempty

end Metered

end Semantics
