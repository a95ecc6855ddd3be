import Mathlib.Order.Interval.Set.Basic

/-!
# Half-open integer spans

Address ranges are half-open: a span holds its lower bound and not its upper
bound. The overlap test of two spans compares bounds only; `overlaps_iff` says
what it means for their members.
-/

set_option autoImplicit false

namespace Semantics

/-- A half-open span `[lo, hi)` of integers; empty when `hi ≤ lo`. -/
structure Span where
  lo : ℤ
  hi : ℤ
  deriving DecidableEq, Repr

namespace Span

/-- `x` lies in the span. -/
def Mem (s : Span) (x : ℤ) : Prop := s.lo ≤ x ∧ x < s.hi

instance (s : Span) (x : ℤ) : Decidable (s.Mem x) :=
  inferInstanceAs (Decidable (s.lo ≤ x ∧ x < s.hi))

/-- The bound comparison that range checks use. -/
def overlaps (s t : Span) : Bool := decide (s.lo < t.hi) && decide (s.hi > t.lo)

variable {s t : Span} {x : ℤ}

theorem mem_iff : s.Mem x ↔ s.lo ≤ x ∧ x < s.hi := Iff.rfl

theorem overlaps_eq_true_iff : s.overlaps t = true ↔ s.lo < t.hi ∧ t.lo < s.hi := by
  simp [overlaps]

/-- Over two nonempty spans the bound comparison finds a common member. -/
theorem overlaps_iff (hs : s.lo < s.hi) (ht : t.lo < t.hi) :
    s.overlaps t = true ↔ ∃ x, s.Mem x ∧ t.Mem x := by
  rw [overlaps_eq_true_iff]
  constructor
  · rintro ⟨hst, hts⟩
    refine ⟨max s.lo t.lo, ⟨le_max_left _ _, ?_⟩, le_max_right _ _, ?_⟩
    · exact max_lt hs hts
    · exact max_lt hst ht
  · rintro ⟨x, ⟨hsl, hsh⟩, htl, hth⟩
    exact ⟨by omega, by omega⟩

/-- A common member makes the bound comparison succeed, empty spans included. -/
theorem overlaps_of_mem (hs : s.Mem x) (ht : t.Mem x) : s.overlaps t = true := by
  rw [overlaps_eq_true_iff]
  obtain ⟨hsl, hsh⟩ := hs
  obtain ⟨htl, hth⟩ := ht
  exact ⟨by omega, by omega⟩

end Span

end Semantics
