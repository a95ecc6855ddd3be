import Mathlib.Order.Defs.PartialOrder

/-!
# Unwinding

A responder answers timed inputs one after the other. To show that the answers to the inputs
of one observer do not depend on the other inputs, compare a run with the run on the
observer's inputs alone: some relation between the two states is kept by an input of the
observer, answered alike on both sides, and by any other input on one side.

Two responders of the same inputs are compared in the same way: some relation between their
states is kept by every input, which both answer alike.

## Main results

* `Unwinding.answers_eq` — the other inputs make no difference
* `Lockstep.answers_eq` — two responders give the same answers
-/

set_option autoImplicit false

namespace Semantics

/-- A state that answers inputs, each of which has a time. -/
structure Responder (σ α δ θ : Type*) where
  respond : σ → α → δ × σ
  time : α → θ

namespace Responder

variable {σ α δ θ : Type*} (m : Responder σ α δ θ)

/-- The answers to the inputs of one observer. -/
def answers (own : α → Bool) : σ → List α → List δ
  | _, [] => []
  | s, a :: rest =>
    if own a then (m.respond s a).1 :: answers own (m.respond s a).2 rest
    else answers own (m.respond s a).2 rest

/-- The state after a list of inputs. -/
def after (s : σ) (inputs : List α) : σ := inputs.foldl (fun s a => (m.respond s a).2) s

@[simp] theorem after_cons (s : σ) (a : α) (rest : List α) :
    m.after s (a :: rest) = m.after (m.respond s a).2 rest := rfl

/-- The answers to a list of inputs are those to its first part and to the rest. -/
theorem answers_append (own : α → Bool) (s : σ) (first rest : List α) :
    m.answers own s (first ++ rest) =
      m.answers own s first ++ m.answers own (m.after s first) rest := by
  induction first generalizing s with
  | nil => rfl
  | cons a first ih =>
    rw [List.cons_append, answers, answers, after_cons]
    split <;> simp [ih]

/-- Inputs of others get no answer that the observer sees. -/
theorem answers_eq_nil {own : α → Bool} {inputs : List α} (h : ∀ a ∈ inputs, own a = false)
    (s : σ) : m.answers own s inputs = [] := by
  induction inputs generalizing s with
  | nil => rfl
  | cons a rest ih =>
    rw [answers, if_neg (by simp [h a List.mem_cons_self])]
    exact ih (fun b hb => h b (List.mem_cons_of_mem _ hb)) _

/-- The times of the inputs do not decrease. -/
def Timely [LE θ] : θ → List α → Prop
  | _, [] => True
  | t, a :: rest => t ≤ m.time a ∧ Timely (m.time a) rest

variable {m} [Preorder θ] {t : θ}

/-- Inputs before an input at the same time and the inputs from it on. -/
theorem Timely.append {a : α} {extra : List α} (hextra : ∀ b ∈ extra, m.time b = m.time a)
    {rest : List α} (h : m.Timely t (a :: rest)) : m.Timely t (extra ++ a :: rest) := by
  induction extra generalizing t with
  | nil => exact h
  | cons b extra ih =>
    have hb := hextra b List.mem_cons_self
    refine ⟨hb ▸ h.1, ih (fun c hc => hextra c (List.mem_cons_of_mem _ hc)) ⟨?_, h.2⟩⟩
    rw [hb]

/-- Inserting inputs at the time of one that follows. -/
theorem Timely.insert {a : α} {extra : List α} (hextra : ∀ b ∈ extra, m.time b = m.time a)
    {rest : List α} : ∀ {t : θ} {first : List α},
    m.Timely t (first ++ a :: rest) → m.Timely t (first ++ (extra ++ a :: rest))
  | _, [], h => h.append hextra
  | _, _ :: _, ⟨hfirst, hrest⟩ => ⟨hfirst, hrest.insert hextra⟩

/-- Inputs at times that do not decrease are timely from the first of them on. -/
theorem timely_of_pairwise {a : α} {inputs : List α}
    (h : (a :: inputs).Pairwise fun x y => m.time x ≤ m.time y) :
    m.Timely (m.time a) (a :: inputs) := by
  induction inputs generalizing a with
  | nil => exact ⟨le_refl _, trivial⟩
  | cons b rest ih =>
    obtain ⟨hfirst, hrest⟩ := List.pairwise_cons.mp h
    exact ⟨le_refl _, hfirst b List.mem_cons_self, (ih hrest).2⟩

end Responder

variable {σ α δ θ : Type*} [Preorder θ]

/-- A relation that the observer's inputs keep on both sides and the others on one. -/
structure Unwinding (m : Responder σ α δ θ) (own : α → Bool) (ok : α → Prop)
    (R : θ → σ → σ → Prop) : Prop where
  observed : ∀ t s s' a, R t s s' → t ≤ m.time a → ok a → own a = true →
    (m.respond s a).1 = (m.respond s' a).1 ∧
      R (m.time a) (m.respond s a).2 (m.respond s' a).2
  unobserved : ∀ t s s' a, R t s s' → t ≤ m.time a → ok a → own a = false →
    R (m.time a) (m.respond s a).2 s'

/-- The answers to the observer's inputs are those to a run of these inputs alone. -/
theorem Unwinding.answers_eq {m : Responder σ α δ θ} {own : α → Bool} {ok : α → Prop}
    {R : θ → σ → σ → Prop} (h : Unwinding m own ok R) {t : θ} {s s' : σ} {inputs : List α}
    (hR : R t s s') (htimely : m.Timely t inputs) (hok : ∀ a ∈ inputs, ok a) :
    m.answers own s inputs = m.answers own s' (inputs.filter own) := by
  induction inputs generalizing t s s' with
  | nil => rfl
  | cons a rest ih =>
    obtain ⟨hfirst, hrest⟩ := htimely
    have hoka := hok a List.mem_cons_self
    have hokrest : ∀ b ∈ rest, ok b := fun b hb => hok b (List.mem_cons_of_mem _ hb)
    by_cases hown : own a = true
    · obtain ⟨hanswer, hnext⟩ := h.observed t s s' a hR hfirst hoka hown
      rw [List.filter_cons_of_pos hown, Responder.answers, Responder.answers, if_pos hown,
        if_pos hown, hanswer, ih hnext hrest hokrest]
    · rw [Bool.not_eq_true] at hown
      have hnext := h.unobserved t s s' a hR hfirst hoka hown
      rw [List.filter_cons_of_neg (by simp [hown]), Responder.answers, if_neg (by simp [hown]),
        ih hnext hrest hokrest]

/-- A relation between the states of two responders that every input keeps, answered alike. -/
structure Lockstep {σ' : Type*} (m : Responder σ α δ θ) (m' : Responder σ' α δ θ)
    (R : θ → σ → σ' → Prop) : Prop where
  respond : ∀ t s s' a, R t s s' → t ≤ m.time a →
    (m.respond s a).1 = (m'.respond s' a).1 ∧
      R (m.time a) (m.respond s a).2 (m'.respond s' a).2

/-- Responders in lockstep give the same answers. -/
theorem Lockstep.answers_eq {σ' : Type*} {m : Responder σ α δ θ} {m' : Responder σ' α δ θ}
    {R : θ → σ → σ' → Prop} (h : Lockstep m m' R) {t : θ} {s : σ} {s' : σ'} {inputs : List α}
    (hR : R t s s') (htimely : m.Timely t inputs) (own : α → Bool) :
    m.answers own s inputs = m'.answers own s' inputs := by
  induction inputs generalizing t s s' with
  | nil => rfl
  | cons a rest ih =>
    obtain ⟨hfirst, hrest⟩ := htimely
    obtain ⟨hanswer, hnext⟩ := h.respond t s s' a hR hfirst
    rw [Responder.answers, Responder.answers, hanswer, ih hnext hrest]

end Semantics
