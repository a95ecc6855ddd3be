import Mathlib.Logic.Relation

/-!
# Labeled machines and guarded reachability

A machine takes a labeled step to at most one next state, and a step that the
state does not enable has no next state. Nondeterminism of the environment (the
order of deliveries, the outcome of an await, a cancellation) is carried by the
labels, so a run is a list of labels.

`Reaches ok s t` restricts runs to steps whose label meets the guard `ok` in the
state it is taken from. Invariants are proved once per step and transported to
runs here.
-/

set_option autoImplicit false

namespace Semantics

/-- A machine: a partial step function over labels. -/
structure Machine (σ ι : Type*) where
  step : σ → ι → Option σ

namespace Machine

variable {σ ι : Type*} (m : Machine σ ι)

/-- Run a list of labels; `none` as soon as one of them is not enabled. -/
def run : σ → List ι → Option σ
  | s, [] => some s
  | s, i :: is => (m.step s i).bind fun t => run t is

@[simp] theorem run_nil (s : σ) : m.run s [] = some s := rfl

@[simp] theorem run_cons (s : σ) (i : ι) (is : List ι) :
    m.run s (i :: is) = (m.step s i).bind fun t => m.run t is := rfl

/-- States reached from `s` by steps that all meet the guard `ok`. -/
inductive Reaches (ok : σ → ι → Prop) (s : σ) : σ → Prop
  | refl : Reaches ok s s
  | tail {t u : σ} {i : ι} : Reaches ok s t → ok t i → m.step t i = some u → Reaches ok s u

/-- Unrestricted reachability. -/
abbrev Reachable (s t : σ) : Prop := m.Reaches (fun _ _ => True) s t

variable {m} {ok ok' : σ → ι → Prop} {s t u : σ}

theorem Reaches.single {i : ι} (hok : ok s i) (hstep : m.step s i = some t) :
    m.Reaches ok s t :=
  .tail .refl hok hstep

theorem Reaches.trans (hst : m.Reaches ok s t) (htu : m.Reaches ok t u) :
    m.Reaches ok s u := by
  induction htu with
  | refl => exact hst
  | tail _ hok hstep ih => exact .tail ih hok hstep

/-- Weakening the guard keeps every run. -/
theorem Reaches.mono (himp : ∀ s i, ok s i → ok' s i) (h : m.Reaches ok s t) :
    m.Reaches ok' s t := by
  induction h with
  | refl => exact .refl
  | tail _ hok hstep ih => exact .tail ih (himp _ _ hok) hstep

/-- The invariant rule: what holds initially and is kept by every guarded step
holds in every state a guarded run reaches. -/
theorem Reaches.invariant {P : σ → Prop} (hinit : P s)
    (hstep : ∀ t i u, P t → ok t i → m.step t i = some u → P u)
    (h : m.Reaches ok s t) : P t := by
  induction h with
  | refl => exact hinit
  | tail _ hok hnext ih => exact hstep _ _ _ ih hok hnext

/-- The invariant rule over a machine without guards. -/
theorem Reachable.invariant {P : σ → Prop} (hinit : P s)
    (hstep : ∀ t i u, P t → m.step t i = some u → P u)
    (h : m.Reachable s t) : P t :=
  Reaches.invariant hinit (fun t i u ht _ => hstep t i u ht) h

/-- A run of a list of labels reaches its final state. -/
theorem reachable_of_run (is : List ι) (h : m.run s is = some t) : m.Reachable s t := by
  induction is generalizing s with
  | nil =>
    obtain rfl : s = t := by simpa using h
    exact .refl
  | cons i is ih =>
    obtain ⟨u, hu, hrest⟩ : ∃ u, m.step s i = some u ∧ m.run u is = some t := by
      simpa [Option.bind_eq_some_iff] using h
    exact (Reaches.single trivial hu).trans (ih hrest)

/-- Two machines side by side: a step is one of the first or one of the second. -/
def beside {σ' ι' : Type*} (m : Machine σ ι) (m' : Machine σ' ι') :
    Machine (σ × σ') (ι ⊕ ι') where
  step s
    | .inl i => (m.step s.1 i).map fun t => (t, s.2)
    | .inr i => (m'.step s.2 i).map fun t => (s.1, t)

/-- What two machines reach side by side, each of them reaches by itself. -/
theorem reachable_of_beside {σ' ι' : Type*} {m' : Machine σ' ι'} {s t : σ × σ'}
    (h : (m.beside m').Reachable s t) : m.Reachable s.1 t.1 ∧ m'.Reachable s.2 t.2 := by
  induction h with
  | refl => exact ⟨.refl, .refl⟩
  | @tail t u i _ _ hstep ih =>
    cases i with
    | inl i =>
      obtain ⟨v, hv, rfl⟩ := Option.map_eq_some_iff.mp hstep
      exact ⟨.tail ih.1 trivial hv, ih.2⟩
    | inr i =>
      obtain ⟨v, hv, rfl⟩ := Option.map_eq_some_iff.mp hstep
      exact ⟨ih.1, .tail ih.2 trivial hv⟩

/-- A run of labels that checks the guard before each step. -/
def runWith (m : Machine σ ι) (ok : σ → ι → Prop) [∀ s i, Decidable (ok s i)] :
    σ → List ι → Option σ
  | s, [] => some s
  | s, i :: is => if ok s i then (m.step s i).bind fun t => runWith m ok t is else none

/-- A checked run reaches its final state under the guard. -/
theorem reaches_of_runWith [∀ s i, Decidable (ok s i)] (is : List ι)
    (h : m.runWith ok s is = some t) : m.Reaches ok s t := by
  induction is generalizing s with
  | nil =>
    obtain rfl : s = t := by simpa [runWith] using h
    exact .refl
  | cons i is ih =>
    by_cases hok : ok s i
    · obtain ⟨u, hu, hrest⟩ : ∃ u, m.step s i = some u ∧ m.runWith ok u is = some t := by
        simpa [runWith, hok, Option.bind_eq_some_iff] using h
      exact (Reaches.single hok hu).trans (ih hrest)
    · simp [runWith, hok] at h

/-- A run of labels that ends in a state that passes a test. -/
theorem exists_reachable_of_run (is : List ι) {test : σ → Bool}
    (h : (m.run s is).any test = true) : ∃ t, m.Reachable s t ∧ test t = true := by
  obtain ⟨t, ht, htest⟩ := (Option.any_eq_true _ _).mp h
  exact ⟨t, reachable_of_run is ht, htest⟩

/-- A checked run that ends in a state that passes a test. -/
theorem exists_reaches_of_runWith [∀ s i, Decidable (ok s i)] (is : List ι) {test : σ → Bool}
    (h : (m.runWith ok s is).any test = true) : ∃ t, m.Reaches ok s t ∧ test t = true := by
  obtain ⟨t, ht, htest⟩ := (Option.any_eq_true _ _).mp h
  exact ⟨t, reaches_of_runWith is ht, htest⟩

end Machine

end Semantics
