import Mathlib.Data.List.Infix

/-!
# Paths in a tree with links

A place is the list of names that leads to it from the root of a tree. A path is walked name by
name; a name that is a link stands for the path that the link holds.

## Main definitions

* `Semantics.Walk` — where a path leads, and how many links are followed on the way
* `Semantics.Canonical` — a place that is reached through no link

## Main results

* `Semantics.Walk.unique` — a path leads to one place at most
* `Semantics.walk_append_iff` — a path is walked piece by piece
* `Semantics.walk_downs_iff` — a place that is reached through no link is reached by its names
-/

set_option autoImplicit false

namespace Semantics

variable {ν : Type*}

inductive PathStep (ν : Type*) where
  | up
  | down (name : ν)
  deriving DecidableEq

/-- A path, from the root or from the place where it is read. -/
structure Route (ν : Type*) where
  absolute : Bool
  steps : List (PathStep ν)
  deriving DecidableEq

/-- Where a path starts that is read at a place. -/
def Route.start (r : Route ν) (here : List ν) : List ν := if r.absolute then [] else here

/-- The links of a tree. -/
abbrev Links (ν : Type*) := List ν → Option (Route ν)

variable (links : Links ν)

/-- A path leads from a place to another, through so many links. -/
inductive Walk : ℕ → List ν → List (PathStep ν) → List ν → Prop
  | nil (here : List ν) : Walk 0 here [] here
  | up {n : ℕ} {here place : List ν} {rest : List (PathStep ν)}
      (h : Walk n here.dropLast rest place) : Walk n here (.up :: rest) place
  | down {n : ℕ} {here place : List ν} {rest : List (PathStep ν)} {name : ν}
      (hplain : links (here ++ [name]) = none) (h : Walk n (here ++ [name]) rest place) :
      Walk n here (.down name :: rest) place
  | follow {n : ℕ} {here place : List ν} {rest : List (PathStep ν)} {name : ν} {r : Route ν}
      (hlink : links (here ++ [name]) = some r)
      (h : Walk n (r.start here) (r.steps ++ rest) place) :
      Walk (n + 1) here (.down name :: rest) place

/-- The names that lead to a place. -/
def downs (place : List ν) : List (PathStep ν) := place.map .down

/-- A place that is reached through no link. -/
def Canonical (place : List ν) : Prop := ∀ q, q <+: place → links q ≠ none → q = []

variable {links} {n m : ℕ} {here place place' : List ν} {steps rest : List (PathStep ν)} {name : ν}
  {r : Route ν}

theorem Walk.of_down (h : Walk links n here (.down name :: rest) place)
    (hplain : links (here ++ [name]) = none) : Walk links n (here ++ [name]) rest place := by
  cases h with
  | down _ h => exact h
  | follow hlink _ => cases hplain.symm.trans hlink

theorem Walk.of_follow (h : Walk links n here (.down name :: rest) place)
    (hlink : links (here ++ [name]) = some r) :
    ∃ m, n = m + 1 ∧ Walk links m (r.start here) (r.steps ++ rest) place := by
  cases h with
  | down hplain _ => cases hplain.symm.trans hlink
  | follow hlink' h =>
    cases Option.some.inj (hlink.symm.trans hlink')
    exact ⟨_, rfl, h⟩

theorem Walk.unique (h : Walk links n here steps place) (h' : Walk links m here steps place') :
    n = m ∧ place = place' := by
  induction h generalizing m with
  | nil here =>
    cases h'
    exact ⟨rfl, rfl⟩
  | up _ ih =>
    cases h' with
    | up h' => exact ih h'
  | down hplain _ ih => exact ih (h'.of_down hplain)
  | follow hlink _ ih =>
    obtain ⟨k, rfl, hfollow⟩ := h'.of_follow hlink
    obtain ⟨rfl, rfl⟩ := ih hfollow
    exact ⟨rfl, rfl⟩

theorem Walk.append (h : Walk links n here steps place)
    (h' : Walk links m place rest place') : Walk links (n + m) here (steps ++ rest) place' := by
  induction h with
  | nil here => rwa [Nat.zero_add]
  | up _ ih => exact .up (ih h')
  | down hplain _ ih => exact .down hplain (ih h')
  | follow hlink _ ih =>
    rw [Nat.succ_add]
    have := ih h'
    rw [List.append_assoc] at this
    exact .follow hlink this

/-- A path is walked piece by piece. -/
theorem walk_append_iff : Walk links n here (steps ++ rest) place ↔
    ∃ k m middle, n = k + m ∧ Walk links k here steps middle ∧ Walk links m middle rest place := by
  constructor
  · intro h
    generalize hall : steps ++ rest = all at h
    induction h generalizing steps with
    | nil here =>
      obtain ⟨rfl, rfl⟩ := List.append_eq_nil_iff.mp hall
      exact ⟨0, 0, here, rfl, .nil here, .nil here⟩
    | @up n here place rest' h ih =>
      cases steps with
      | nil =>
        refine ⟨0, n, here, (Nat.zero_add n).symm, .nil here, ?_⟩
        rw [show rest = _ from hall]
        exact .up h
      | cons s steps =>
        obtain ⟨rfl, hrest⟩ := List.cons.inj hall
        obtain ⟨k, m, middle, rfl, hk, hm⟩ := ih hrest
        exact ⟨k, m, middle, rfl, .up hk, hm⟩
    | @down n here place rest' name hplain h ih =>
      cases steps with
      | nil =>
        refine ⟨0, n, here, (Nat.zero_add n).symm, .nil here, ?_⟩
        rw [show rest = _ from hall]
        exact .down hplain h
      | cons s steps =>
        obtain ⟨rfl, hrest⟩ := List.cons.inj hall
        obtain ⟨k, m, middle, rfl, hk, hm⟩ := ih hrest
        exact ⟨k, m, middle, rfl, .down hplain hk, hm⟩
    | @follow n here place rest' name r hlink h ih =>
      cases steps with
      | nil =>
        refine ⟨0, n + 1, here, (Nat.zero_add _).symm, .nil here, ?_⟩
        rw [show rest = _ from hall]
        exact .follow hlink h
      | cons s steps =>
        obtain ⟨rfl, hrest⟩ := List.cons.inj hall
        -- the path of the link comes before what is left of the piece
        obtain ⟨k, m, middle, rfl, hk, hm⟩ :=
          @ih (r.steps ++ steps) ((List.append_assoc ..).trans (congrArg (r.steps ++ ·) hrest))
        exact ⟨k + 1, m, middle, by rw [Nat.succ_add], .follow hlink hk, hm⟩
  · rintro ⟨k, m, middle, rfl, hk, hm⟩
    exact hk.append hm

theorem Canonical.of_prefix (h : Canonical links place) (hfront : place' <+: place) :
    Canonical links place' :=
  fun q hq hlink => h q (hq.trans hfront) hlink

theorem canonical_nil : Canonical links ([] : List ν) := fun _ hq _ => List.prefix_nil.mp hq

theorem Canonical.concat (h : Canonical links place) (hplain : links (place ++ [name]) = none) :
    Canonical links (place ++ [name]) := by
  intro q hq hlink
  rcases List.prefix_concat_iff.mp hq with rfl | hq
  · exact absurd hplain hlink
  · exact h q hq hlink

/-- A place that is reached through no link is reached by its names. -/
theorem Canonical.walk_downs (h : Canonical links place) : Walk links 0 [] (downs place) place := by
  induction place using List.reverseRecOn with
  | nil => exact .nil []
  | append_singleton place name ih =>
    have hplain : links (place ++ [name]) = none := by
      by_contra hlink
      have := h _ (List.prefix_refl _) hlink
      simp at this
    rw [downs, List.map_append]
    exact (ih (h.of_prefix (List.prefix_append place [name]))).append (.down hplain (.nil _))

theorem downs_append (place place' : List ν) :
    downs (place ++ place') = downs place ++ downs place' :=
  List.map_append

/-- From a place that is reached through no link, names lead where they lead from the root. -/
theorem Canonical.walk_downs_append_iff (h : Canonical links here) :
    Walk links n [] (downs here ++ steps) place ↔ Walk links n here steps place := by
  constructor
  · intro hwalk
    obtain ⟨k, m, middle, rfl, hk, hm⟩ := walk_append_iff.mp hwalk
    obtain ⟨rfl, rfl⟩ := hk.unique h.walk_downs
    rwa [Nat.zero_add]
  · intro hwalk
    have := h.walk_downs.append hwalk
    rwa [Nat.zero_add] at this

end Semantics
