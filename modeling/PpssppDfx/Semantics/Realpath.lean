import Mathlib.Data.Finset.Card
import Mathlib.Data.Finset.Dedup
import PpssppDfx.Semantics.Paths

/-!
# Resolving a path

`os.path.realpath` names the place where a path leads. It walks the path itself and remembers the
links that it meets: while the path of a link is being walked, nothing is known of the link, and
afterwards the place is. A link that is met again while its own path is being walked is in a loop,
and is taken for a plain name. A path through a loop leads nowhere, but it has a result.

## Main definitions

* `Semantics.realpath` — the place that a path is resolved to

## Main results

* `Semantics.realpath_eq_of_walk` — it is the place where the path leads, if it leads anywhere
* `Semantics.eq_realpath_of_walk` — the names of the result lead there, or nowhere
-/

set_option autoImplicit false

namespace Semantics

variable {ν : Type*}

/-- What is left to walk: names, and marks where the path of a link has been walked. -/
inductive PathPart (ν : Type*) where
  | step (s : PathStep ν)
  | resolved (link : List ν)
  deriving DecidableEq

/-- The links that have been met, with the places where they lead if that is known. -/
abbrev Seen (ν : Type*) := List (List ν × Option (List ν))

/-- Why the walk stops: there is nothing left, or it has met a new link. -/
inductive Halt (ν : Type*) where
  | done (path : List ν)
  | link (seen : Seen ν) (path : List ν) (name : ν) (r : Route ν) (rest : List (PathPart ν))

variable [DecidableEq ν] (links : Links ν)

/-- Walk up to the next link that is new. -/
def advance : List (PathPart ν) → Seen ν → List ν → Halt ν
  | [], _, path => .done path
  | .resolved link :: rest, seen, path => advance rest ((link, some path) :: seen) path
  | .step .up :: rest, seen, path => advance rest seen path.dropLast
  | .step (.down name) :: rest, seen, path =>
    match links (path ++ [name]) with
    | none => advance rest seen (path ++ [name])
    | some r =>
      match seen.lookup (path ++ [name]) with
      | some (some target) => advance rest seen target
      -- its own path is being walked
      | some none => advance rest seen (path ++ [name])
      | none => .link seen path name r rest

/-- Walk, and follow so many links. -/
def realpathFrom : ℕ → Seen ν → List ν → List (PathPart ν) → Option (List ν)
  | 0, seen, path, parts =>
    match advance links parts seen path with
    | .done path => some path
    | .link .. => none
  | fuel + 1, seen, path, parts =>
    match advance links parts seen path with
    | .done path => some path
    | .link seen path name r rest =>
      realpathFrom fuel ((path ++ [name], none) :: seen) (r.start path)
        (r.steps.map .step ++ .resolved (path ++ [name]) :: rest)

omit [DecidableEq ν] in
variable (ν) in
/-- The links of a tree of files, by their places. -/
structure LinkTree where
  entries : List (List ν × Route ν)

def LinkTree.lookup (t : LinkTree ν) : Links ν := fun place => t.entries.lookup place

/-- `os.path.realpath`, for a path that is read at a place. Each link is followed once. -/
def realpath (t : LinkTree ν) (here : List ν) (r : Route ν) : List ν :=
  (realpathFrom t.lookup t.entries.length [] (r.start here) (r.steps.map .step)).getD []

/-! ## What the walk keeps -/

section

omit [DecidableEq ν]

/-- A place whose names lead nowhere. -/
def LeadsNowhere (place : List ν) : Prop := ∀ n p, ¬ Walk links n [] (downs place) p

/-- The links on the way to a place are in loops. -/
def Clean (path : List ν) : Prop :=
  ∀ q, q <+: path → links q ≠ none → q = [] ∨ LeadsNowhere links q

/-- Where something leads, the steps lead from a place that is reached through no link, and through
fewer links. -/
def Tracks (W : ℕ → List ν → Prop) (path : List ν) (steps : List (PathStep ν)) : Prop :=
  ∀ n p, W n p → Canonical links path ∧ ∃ m < n, Walk links m path steps p

def walkOf (link : List ν) : ℕ → List ν → Prop := fun n p => Walk links n [] (downs link) p

/-- The steps up to each mark lead where the link of the mark leads. -/
def Marks (path : List ν) : List (PathStep ν) → List (PathPart ν) → Prop
  | _, [] => True
  | before, .step s :: rest => Marks path (before ++ [s]) rest
  | before, .resolved link :: rest =>
    Tracks links (walkOf links link) path before ∧ Marks path before rest

def stepsOf : List (PathPart ν) → List (PathStep ν)
  | [] => []
  | .step s :: rest => s :: stepsOf rest
  | .resolved _ :: rest => stepsOf rest

variable {links} {W : ℕ → List ν → Prop} {path path' link : List ν} {s : PathStep ν}
  {steps before : List (PathStep ν)} {parts rest : List (PathPart ν)} {name : ν} {r : Route ν}

theorem Clean.canonical_of_walk (h : Clean links path) {n : ℕ} {p : List ν}
    (hwalk : Walk links n [] (downs path ++ steps) p) : Canonical links path := by
  intro q hq hlink
  refine (h q hq hlink).resolve_right fun hnowhere => ?_
  obtain ⟨tail, rfl⟩ := hq
  rw [downs_append, List.append_assoc] at hwalk
  obtain ⟨k, -, middle, -, hk, -⟩ := walk_append_iff.mp hwalk
  exact hnowhere k middle hk

theorem Clean.of_prefix (h : Clean links path) (hfront : path' <+: path) : Clean links path' :=
  fun q hq hlink => h q (hq.trans hfront) hlink

theorem Clean.concat (h : Clean links path)
    (hname : links (path ++ [name]) ≠ none → LeadsNowhere links (path ++ [name])) :
    Clean links (path ++ [name]) := by
  intro q hq hlink
  rcases List.prefix_concat_iff.mp hq with rfl | hq
  · exact Or.inr (hname hlink)
  · exact h q hq hlink

theorem Canonical.clean (h : Canonical links path) : Clean links path :=
  fun q hq hlink => Or.inl (h q hq hlink)

variable (links) in
/-- What a step may be replaced by: steps that lead where it leads. -/
def Replaces (path : List ν) (s : PathStep ν) (path' : List ν) (steps : List (PathStep ν)) :
    Prop :=
  ∀ m tail p, Canonical links path → Walk links m path (s :: tail) p →
    Canonical links path' ∧ ∃ k ≤ m, Walk links k path' (steps ++ tail) p

theorem Tracks.replace (hreplaces : Replaces links path s path' steps)
    (h : Tracks links W path (s :: before)) : Tracks links W path' (steps ++ before) := by
  intro n p hW
  obtain ⟨hcanonical, m, hm, hwalk⟩ := h n p hW
  obtain ⟨hcanonical', k, hk, hwalk'⟩ := hreplaces m before p hcanonical hwalk
  exact ⟨hcanonical', k, by omega, hwalk'⟩

theorem Marks.replace (hreplaces : Replaces links path s path' steps)
    (h : Marks links path (s :: before) rest) : Marks links path' (steps ++ before) rest := by
  induction rest generalizing before with
  | nil => trivial
  | cons part rest ih =>
    cases part with
    | step s' =>
      rw [Marks, List.append_assoc]
      exact ih h
    | resolved link => exact ⟨h.1.replace hreplaces, ih h.2⟩

theorem stepsOf_map_append (steps : List (PathStep ν)) (rest : List (PathPart ν)) :
    stepsOf (steps.map .step ++ rest) = steps ++ stepsOf rest := by
  induction steps with
  | nil => rfl
  | cons s steps ih => exact congrArg (s :: ·) ih

theorem marks_map_append_iff :
    Marks links path before (steps.map .step ++ rest) ↔
      Marks links path (before ++ steps) rest := by
  induction steps generalizing before with
  | nil => rw [List.append_nil]; rfl
  | cons s steps ih =>
    rw [List.map_cons, List.cons_append, Marks, ih, List.append_assoc]
    rfl

end

/-- What holds between the parts: of the place so far, of the whole path, of the links whose paths
are being walked and of the links that are known. -/
structure RealpathInv (W : ℕ → List ν → Prop) (seen : Seen ν) (path : List ν)
    (parts : List (PathPart ν)) : Prop where
  clean : Clean links path
  whole : Tracks links W path (stepsOf parts)
  marks : Marks links path [] parts
  known : ∀ link target, seen.lookup link = some (some target) →
    Clean links target ∧ ∀ n p, Walk links n [] (downs link) p → Canonical links target ∧ p = target
  pending : ∀ link, seen.lookup link = some none → .resolved link ∈ parts

section

variable {links} {W : ℕ → List ν → Prop} {seen : Seen ν} {path path' link : List ν}
  {s : PathStep ν} {steps : List (PathStep ν)} {parts rest : List (PathPart ν)} {name : ν}
  {r : Route ν}

/-- One step replaced by others. -/
theorem RealpathInv.replace (h : RealpathInv links W seen path (.step s :: rest))
    (hclean : Clean links path') (hreplaces : Replaces links path s path' steps) :
    RealpathInv links W seen path' (steps.map .step ++ rest) where
  clean := hclean
  whole := by
    rw [stepsOf_map_append]
    exact h.whole.replace hreplaces
  marks := by
    have hmarks : Marks links path [s] rest := h.marks
    rw [marks_map_append_iff, List.nil_append, ← List.append_nil steps]
    exact hmarks.replace hreplaces
  known := h.known
  pending link hlink := by
    have hmem := h.pending link hlink
    rw [List.mem_cons] at hmem
    exact List.mem_append_right _ (hmem.resolve_left fun heq => by cases heq)

/-- One step taken. -/
theorem RealpathInv.step (h : RealpathInv links W seen path (.step s :: rest))
    (hclean : Clean links path') (hreplaces : Replaces links path s path' []) :
    RealpathInv links W seen path' rest :=
  h.replace hclean hreplaces

theorem RealpathInv.up (h : RealpathInv links W seen path (.step .up :: rest)) :
    RealpathInv links W seen path.dropLast rest := by
  refine h.step (h.clean.of_prefix (List.dropLast_prefix _)) ?_
  intro m tail p hcanonical hwalk
  cases hwalk with
  | up hwalk => exact ⟨hcanonical.of_prefix (List.dropLast_prefix _), m, le_rfl, hwalk⟩

theorem RealpathInv.plain (h : RealpathInv links W seen path (.step (.down name) :: rest))
    (hplain : links (path ++ [name]) = none) :
    RealpathInv links W seen (path ++ [name]) rest := by
  refine h.step (h.clean.concat fun hlink => absurd hplain hlink) ?_
  intro m tail p hcanonical hwalk
  exact ⟨hcanonical.concat hplain, m, le_rfl, hwalk.of_down hplain⟩

omit [DecidableEq ν] in
/-- The first step leads where the names of its place lead. -/
theorem walk_name {n : ℕ} {p : List ν} (hcanonical : Canonical links path) :
    Walk links n [] (downs (path ++ [name])) p ↔ Walk links n path [.down name] p := by
  rw [downs_append]
  exact hcanonical.walk_downs_append_iff

theorem RealpathInv.cached (h : RealpathInv links W seen path (.step (.down name) :: rest))
    {target : List ν} (hseen : seen.lookup (path ++ [name]) = some (some target)) :
    RealpathInv links W seen target rest := by
  obtain ⟨hclean, hknown⟩ := h.known _ _ hseen
  refine h.step hclean ?_
  intro m tail p hcanonical hwalk
  have hwalk : Walk links m path ([PathStep.down name] ++ tail) p := hwalk
  obtain ⟨k, l, middle, rfl, hk, hl⟩ := walk_append_iff.mp hwalk
  obtain ⟨htarget, rfl⟩ := hknown k middle ((walk_name hcanonical).mpr hk)
  exact ⟨htarget, l, by omega, hl⟩

/-- A mark that is left to come has its link tracked by some steps, the first of which is next. -/
theorem Marks.tracks_of_mem {before : List (PathStep ν)} (h : Marks links path before rest)
    (hmem : .resolved link ∈ rest) :
    ∃ tail, Tracks links (walkOf links link) path (before ++ tail) := by
  induction rest generalizing before with
  | nil => cases hmem
  | cons part rest ih =>
    cases part with
    | step s =>
      obtain ⟨tail, htracks⟩ := ih h ((List.mem_cons.mp hmem).resolve_left fun heq => by cases heq)
      exact ⟨s :: tail, by rwa [List.append_assoc] at htracks⟩
    | resolved link' =>
      by_cases hlink : link = link'
      · exact ⟨[], by rw [List.append_nil, hlink]; exact h.1⟩
      · refine ih h.2 ((List.mem_cons.mp hmem).resolve_left fun heq => ?_)
        exact hlink (PathPart.resolved.inj heq)

/-- A link that is met while its own path is being walked leads nowhere. -/
theorem RealpathInv.leadsNowhere (h : RealpathInv links W seen path (.step (.down name) :: rest))
    (hseen : seen.lookup (path ++ [name]) = some none) :
    LeadsNowhere links (path ++ [name]) := by
  intro n p hwalk
  have hmem := h.pending _ hseen
  have hrest : .resolved (path ++ [name]) ∈ rest :=
    (List.mem_cons.mp hmem).resolve_left fun heq => by cases heq
  have hmarks : Marks links path [.down name] rest := h.marks
  obtain ⟨tail, htracks⟩ := hmarks.tracks_of_mem hrest
  obtain ⟨hcanonical, m, hm, hagain⟩ := htracks n p hwalk
  obtain ⟨k, l, middle, rfl, hk, -⟩ := walk_append_iff.mp hagain
  -- the walk of the link would take fewer links than it takes
  obtain ⟨rfl, -⟩ := ((walk_name hcanonical).mpr hk).unique hwalk
  omega

theorem RealpathInv.loop (h : RealpathInv links W seen path (.step (.down name) :: rest))
    (hseen : seen.lookup (path ++ [name]) = some none) :
    RealpathInv links W seen (path ++ [name]) rest := by
  have hnowhere := h.leadsNowhere hseen
  refine h.step (h.clean.concat fun _ => hnowhere) ?_
  intro m tail p hcanonical hwalk
  have hwalk : Walk links m path ([PathStep.down name] ++ tail) p := hwalk
  obtain ⟨k, l, middle, rfl, hk, -⟩ := walk_append_iff.mp hwalk
  exact absurd ((walk_name hcanonical).mpr hk) (hnowhere k middle)

/-- The path of a link has been walked. -/
theorem RealpathInv.resolved (h : RealpathInv links W seen path (.resolved link :: rest)) :
    RealpathInv links W ((link, some path) :: seen) path rest where
  clean := h.clean
  whole := h.whole
  marks := h.marks.2
  known link' target hlookup := by
    rw [List.lookup_cons] at hlookup
    split at hlookup
    · rename_i heq
      obtain rfl : link' = link := by simpa using heq
      obtain rfl : path = target := by simpa using hlookup
      refine ⟨h.clean, fun n p hwalk => ?_⟩
      obtain ⟨hcanonical, m, -, hdone⟩ := h.marks.1 n p hwalk
      cases hdone
      exact ⟨hcanonical, rfl⟩
    · exact h.known link' target hlookup
  pending link' hlookup := by
    rw [List.lookup_cons] at hlookup
    split at hlookup
    · cases hlookup
    · rename_i heq
      refine (List.mem_cons.mp (h.pending link' hlookup)).resolve_left fun hpart => ?_
      rw [PathPart.resolved.inj hpart] at heq
      simp at heq

/-- A new link is followed. -/
theorem RealpathInv.follow (h : RealpathInv links W seen path (.step (.down name) :: rest))
    (hlink : links (path ++ [name]) = some r) :
    RealpathInv links W ((path ++ [name], none) :: seen) (r.start path)
      (r.steps.map .step ++ .resolved (path ++ [name]) :: rest) := by
  have hstart : Canonical links path → Canonical links (r.start path) := by
    intro hcanonical
    rw [Route.start]
    split
    · exact canonical_nil
    · exact hcanonical
  have hclean : Clean links (r.start path) := by
    rw [Route.start]
    split
    · exact canonical_nil.clean
    · exact h.clean
  have hfollowed : RealpathInv links W seen (r.start path) (r.steps.map .step ++ rest) := by
    refine h.replace hclean ?_
    intro m tail p hcanonical hwalk
    obtain ⟨k, rfl, hwalk'⟩ := hwalk.of_follow hlink
    exact ⟨hstart hcanonical, k, Nat.le_succ k, hwalk'⟩
  refine ⟨hclean, ?_, ?_, ?_, ?_⟩
  · have hwhole := hfollowed.whole
    rw [stepsOf_map_append] at hwhole ⊢
    exact hwhole
  · have hmarks := hfollowed.marks
    rw [marks_map_append_iff] at hmarks ⊢
    refine ⟨?_, hmarks⟩
    intro n p hwalk
    have hcanonical : Canonical links path := by
      have hwalk' : Walk links n [] (downs path ++ downs [name]) p := by
        rw [← downs_append]
        exact hwalk
      exact h.clean.canonical_of_walk hwalk'
    obtain ⟨k, rfl, hwalk'⟩ := ((walk_name hcanonical).mp hwalk).of_follow hlink
    rw [List.append_nil] at hwalk'
    exact ⟨hstart hcanonical, k, Nat.lt_succ_self k, hwalk'⟩
  · intro link target hlookup
    rw [List.lookup_cons] at hlookup
    split at hlookup
    · cases hlookup
    · exact h.known link target hlookup
  · intro link hlookup
    rw [List.lookup_cons] at hlookup
    split at hlookup
    · rename_i heq
      obtain rfl : link = path ++ [name] := by simpa using heq
      exact List.mem_append_right _ List.mem_cons_self
    · have hmem := (List.mem_cons.mp (h.pending link hlookup)).resolve_left fun heq => by cases heq
      exact List.mem_append_right _ (List.mem_cons_of_mem _ hmem)

/-- What is known when the walk stops. -/
def Halt.Keeps (links : Links ν) (W : ℕ → List ν → Prop) : Halt ν → Prop
  | .done path => Clean links path ∧ Tracks links W path []
  | .link seen path name r rest => RealpathInv links W seen path (.step (.down name) :: rest) ∧
      links (path ++ [name]) = some r ∧ seen.lookup (path ++ [name]) = none

theorem RealpathInv.advance (h : RealpathInv links W seen path parts) :
    (advance links parts seen path).Keeps links W := by
  induction parts generalizing seen path with
  | nil => exact ⟨h.clean, h.whole⟩
  | cons part rest ih =>
    cases part with
    | resolved link => exact ih h.resolved
    | step s =>
      cases s with
      | up => exact ih h.up
      | down name =>
        rw [Semantics.advance]
        split
        · rename_i hplain
          exact ih (h.plain hplain)
        · rename_i r hlink
          split
          · rename_i target hseen
            exact ih (h.cached hseen)
          · rename_i hseen
            exact ih (h.loop hseen)
          · rename_i hseen
            exact ⟨h, hlink, hseen⟩

theorem RealpathInv.realpathFrom (h : RealpathInv links W seen path parts) {fuel : ℕ}
    {result : List ν} (hresult : realpathFrom links fuel seen path parts = some result) :
    Clean links result ∧ Tracks links W result [] := by
  induction fuel generalizing seen path parts with
  | zero =>
    have hkeeps := h.advance
    rw [Semantics.realpathFrom] at hresult
    cases hhalt : Semantics.advance links parts seen path with
    | done path' =>
      rw [hhalt] at hkeeps hresult
      cases hresult
      exact hkeeps
    | link seen' path' name r rest =>
      rw [hhalt] at hresult
      cases hresult
  | succ fuel ih =>
    have hkeeps := h.advance
    rw [Semantics.realpathFrom] at hresult
    cases hhalt : Semantics.advance links parts seen path with
    | done path' =>
      rw [hhalt] at hkeeps hresult
      cases hresult
      exact hkeeps
    | link seen' path' name r rest =>
      rw [hhalt] at hkeeps hresult
      exact ih (hkeeps.1.follow hkeeps.2.1) hresult

/-! ## Each link is followed once -/

/-- The links that have not been met. -/
def LinkTree.unseen (t : LinkTree ν) (seen : Seen ν) : Finset (List ν) :=
  {link ∈ (t.entries.map Prod.fst).toFinset | (seen.lookup link).isNone}

theorem mem_keys_of_lookup {t : LinkTree ν} {place : List ν} (h : t.lookup place = some r) :
    place ∈ (t.entries.map Prod.fst).toFinset := by
  rw [List.mem_toFinset]
  by_contra hnot
  rw [LinkTree.lookup, List.lookup_eq_none_iff.mpr] at h
  · cases h
  · intro entry hentry
    by_contra hbeq
    have heq : place = entry.1 := by simpa using hbeq
    exact hnot (heq ▸ List.mem_map_of_mem hentry)

/-- What is met stays met. -/
theorem unseen_cons_subset (t : LinkTree ν) (entry : List ν × Option (List ν)) (seen : Seen ν) :
    t.unseen (entry :: seen) ⊆ t.unseen seen := by
  intro link hlink
  rw [LinkTree.unseen, Finset.mem_filter] at hlink ⊢
  refine ⟨hlink.1, ?_⟩
  have hnone := hlink.2
  rw [List.lookup_cons] at hnone
  split at hnone
  · cases hnone
  · exact hnone

theorem unseen_advance (t : LinkTree ν) {seen' : Seen ν} {path' : List ν}
    (h : advance t.lookup parts seen path = .link seen' path' name r rest) :
    t.unseen seen' ⊆ t.unseen seen ∧ t.lookup (path' ++ [name]) = some r ∧
      seen'.lookup (path' ++ [name]) = none := by
  induction parts generalizing seen path with
  | nil => cases h
  | cons part parts ih =>
    cases part with
    | resolved link =>
      obtain ⟨hsubset, hlink⟩ := ih h
      exact ⟨hsubset.trans (unseen_cons_subset t _ seen), hlink⟩
    | step s =>
      cases s with
      | up => exact ih h
      | down name' =>
        rw [Semantics.advance] at h
        split at h
        · exact ih h
        · rename_i r' hlink
          split at h
          · exact ih h
          · exact ih h
          · rename_i hseen
            cases h
            exact ⟨Finset.Subset.refl _, hlink, hseen⟩

/-- A link that is followed is met. -/
theorem card_unseen_lt {t : LinkTree ν} {seen' : Seen ν} {path' : List ν}
    (h : advance t.lookup parts seen path = .link seen' path' name r rest) :
    (t.unseen ((path' ++ [name], none) :: seen')).card < (t.unseen seen).card := by
  obtain ⟨hsubset, hlink, hseen⟩ := unseen_advance t h
  refine Finset.card_lt_card ⟨(unseen_cons_subset t _ seen').trans hsubset, fun hback => ?_⟩
  have hunseen : path' ++ [name] ∈ t.unseen seen := by
    refine hsubset (Finset.mem_filter.mpr ⟨mem_keys_of_lookup hlink, ?_⟩)
    rw [hseen]
    rfl
  have hmet := (Finset.mem_filter.mp (hback hunseen)).2
  rw [List.lookup_cons_self] at hmet
  cases hmet

theorem realpathFrom_isSome {t : LinkTree ν} {fuel : ℕ} (h : (t.unseen seen).card ≤ fuel) :
    (realpathFrom t.lookup fuel seen path parts).isSome := by
  induction fuel generalizing seen path parts with
  | zero =>
    rw [Semantics.realpathFrom]
    split
    · rfl
    · rename_i hhalt
      have := card_unseen_lt hhalt
      omega
  | succ fuel ih =>
    rw [Semantics.realpathFrom]
    split
    · rfl
    · rename_i hhalt
      have := card_unseen_lt hhalt
      exact ih (by omega)

/-! ## The result -/

variable {t : LinkTree ν} {here place : List ν} {n : ℕ}

theorem card_unseen_nil_le (t : LinkTree ν) : (t.unseen []).card ≤ t.entries.length := by
  refine (Finset.card_filter_le _ _).trans ((List.toFinset_card_le _).trans ?_)
  rw [List.length_map]

/-- What a path is resolved to: its links are in loops, and it is where the path leads. -/
theorem realpath_spec (hhere : Canonical t.lookup here) (r : Route ν) :
    Clean t.lookup (realpath t here r) ∧
      ∀ n place, Walk t.lookup n (r.start here) r.steps place → place = realpath t here r := by
  have hstart : Canonical t.lookup (r.start here) := by
    rw [Route.start]
    split
    · exact canonical_nil
    · exact hhere
  have hsome : (realpathFrom t.lookup t.entries.length [] (r.start here)
      (r.steps.map .step)).isSome := realpathFrom_isSome (card_unseen_nil_le t)
  obtain ⟨result, hresult⟩ := Option.isSome_iff_exists.mp hsome
  have hinv : RealpathInv t.lookup
      (fun n p => ∃ m < n, Walk t.lookup m (r.start here) r.steps p) [] (r.start here)
      (r.steps.map .step) := by
    have hsteps : stepsOf (r.steps.map .step) = r.steps := by
      simpa [stepsOf] using stepsOf_map_append r.steps ([] : List (PathPart ν))
    refine ⟨hstart.clean, ?_, ?_, fun _ _ hlookup => (nomatch hlookup),
      fun _ hlookup => (nomatch hlookup)⟩
    · intro n p hwalk
      rw [hsteps]
      exact ⟨hstart, hwalk⟩
    · rw [← List.append_nil (r.steps.map _), marks_map_append_iff]
      trivial
  obtain ⟨hclean, hwhole⟩ := hinv.realpathFrom hresult
  rw [realpath, hresult]
  refine ⟨hclean, fun n place hwalk => ?_⟩
  obtain ⟨-, m, -, hdone⟩ := hwhole (n + 1) place ⟨n, Nat.lt_succ_self n, hwalk⟩
  cases hdone
  rfl

/-- A path is resolved to the place where it leads. -/
theorem realpath_eq_of_walk (hhere : Canonical t.lookup here)
    (h : Walk t.lookup n (r.start here) r.steps place) : realpath t here r = place :=
  ((realpath_spec hhere r).2 n place h).symm

/-- The names of a resolved path lead to the place that they name, if anywhere. -/
theorem eq_realpath_of_walk (hhere : Canonical t.lookup here)
    (h : Walk t.lookup n [] (downs (realpath t here r)) place) : place = realpath t here r := by
  have hclean := (realpath_spec hhere r).1
  rw [← List.append_nil (downs _)] at h
  have hcanonical := hclean.canonical_of_walk h
  rw [hcanonical.walk_downs_append_iff] at h
  cases h
  rfl

end

end Semantics
