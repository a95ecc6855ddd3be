import Mathlib.Algebra.Group.Nat.Defs
import Mathlib.Data.List.Basic
import PpssppDfx.Python.Value

/-!
# Searching the disassembly

The emulator answers a search with the first match at or after an address: up to an end
address when one is given, and around the address space otherwise. `_collect_matches` repeats
the search behind each match. The client leaves the end out of a request that does not start
before it, and so a search that is to go around the address space turns into a search of a
range once it has wrapped to an address before the end.

## Main definitions

* `Disasm.Matches` — the matching addresses, and the emulator's search over them
* `Disasm.collectMatches` — `_collect_matches`
* `Disasm.inOrder` — the matches that a search is for, in its order
* `Disasm.TurnsIntoRange` — a search around the address space stops at the end address

## Main results

* `collectMatches_iff` — when the matches of a search are collected
-/

set_option autoImplicit false

namespace Disasm

open Python

/-- The addresses whose instructions match: words of the 32-bit address space. -/
structure Matches where
  addrs : List ℕ
  sorted : addrs.Pairwise (· < ·)
  aligned : ∀ m ∈ addrs, 4 ∣ m
  below : ∀ m ∈ addrs, m < 2 ^ 32

/-- `memory.searchDisasm`: the first match at or after the address, before the end if there is
one, and after the wrap around the address space if there is none. -/
def Matches.search (M : Matches) (address : ℕ) : Option ℕ → Option ℕ
  | some stop => M.addrs.find? fun m => address ≤ m ∧ m < stop
  | none => (M.addrs.find? fun m => address ≤ m).or M.addrs.head?

/-- `PpssppDebugClient.search_disasm`. -/
def searchDisasm (M : Matches) (address stop : ℕ) : Option ℕ :=
  M.search address (if address < stop then some stop else none)

/-- A result: the address, and what the disassembly of its line says. -/
structure Entry where
  address : ℕ
  text : Option Value
  name : Option Value
  params : Option Value

/-- The entry of a match. What the disassembly raises is swallowed. -/
def entry (disasm : ℕ → Option (List Dict)) (address : ℕ) : Entry :=
  match disasm address with
  | some (line :: _) =>
    ⟨address, some ((line.get? "text").getD (.str "")), line.get? "name", line.get? "params"⟩
  | _ => ⟨address, none, none, none⟩

/-- `while len(results) < max_results`, by the number of results that are still wanted. -/
def collectFrom (M : Matches) (disasm : ℕ → Option (List Dict)) (start stop : ℕ) :
    ℕ → ℕ → List ℕ → List Entry
  | 0, _, _ => []
  | wanted + 1, current, seen =>
    if start < stop ∧ stop ≤ current then []
    else
      match searchDisasm M current stop with
      | none => []
      | some matched =>
        if matched ∈ seen then []
        else entry disasm matched ::
          collectFrom M disasm start stop wanted (matched + 4) (matched :: seen)

/-- `_collect_matches`. -/
def collectMatches (M : Matches) (disasm : ℕ → Option (List Dict)) (start stop maxResults : ℕ) :
    List Entry :=
  collectFrom M disasm start stop maxResults start []

/-! ## What a search is for -/

namespace Matches

variable (M : Matches) (start stop : ℕ)

/-- The matches from an address on. -/
def after : List ℕ := M.addrs.filter fun m => start ≤ m

/-- The matches before an address. -/
def before : List ℕ := M.addrs.filter fun m => m < start

end Matches

/-- The matches of a search: those in the range if it has one, and all of them otherwise, from
the start on and around. -/
def inOrder (M : Matches) (start stop : ℕ) : List ℕ :=
  if start < stop then M.addrs.filter fun m => start ≤ m ∧ m < stop
  else M.after start ++ M.before start

/-- Of the matches before the start, two neighbours have the end between them, and the first of
them is not the last result that is wanted. -/
def TurnsIntoRange (M : Matches) (start stop maxResults : ℕ) : Prop :=
  stop ≤ start ∧ ∃ front m k rest, M.before start = front ++ m :: k :: rest ∧
    m + 4 < stop ∧ stop ≤ k ∧ (M.after start).length + front.length + 1 < maxResults

/-! ## One search -/

variable {M : Matches} {disasm : ℕ → Option (List Dict)}
  {start stop current wanted m : ℕ} {seen done rest : List ℕ}

theorem address_entry : (entry disasm m).address = m := by
  unfold entry
  split <;> rfl

/-- The matches before an address come before those from it on. -/
theorem before_append_after (M : Matches) (start : ℕ) :
    M.before start ++ M.after start = M.addrs := by
  have hsorted := M.sorted
  rw [Matches.before, Matches.after]
  generalize M.addrs = l at hsorted
  induction l with
  | nil => rfl
  | cons a l ih =>
    obtain ⟨hfirst, hrest⟩ := List.pairwise_cons.mp hsorted
    by_cases ha : a < start
    · rw [List.filter_cons_of_pos (by simpa using ha),
        List.filter_cons_of_neg (by simpa using ha), List.cons_append, ih hrest]
    -- nothing after an address from the start on comes before the start
    · have hnone : (a :: l).filter (fun m => m < start) = [] := by
        rw [List.filter_eq_nil_iff]
        intro b hb
        rcases List.mem_cons.mp hb with rfl | hb
        · simpa using ha
        · have hab := hfirst b hb
          simp only [decide_eq_true_eq]
          omega
      have hall : (a :: l).filter (fun m => start ≤ m) = a :: l := by
        rw [List.filter_eq_self]
        intro b hb
        rcases List.mem_cons.mp hb with rfl | hb
        · simpa using ha
        · have hab := hfirst b hb
          simp only [decide_eq_true_eq]
          omega
      rw [hnone, hall, List.nil_append]

/-- The search stands between the matches before an address and those from it on. -/
structure At (M : Matches) (current : ℕ) (done rest : List ℕ) : Prop where
  addrs_eq : M.addrs = done ++ rest
  lt_current : ∀ x ∈ done, x < current
  current_le : ∀ x ∈ rest, current ≤ x

theorem at_start (M : Matches) (start : ℕ) : At M start (M.before start) (M.after start) where
  addrs_eq := (before_append_after M start).symm
  lt_current := fun x hx => by simpa using (List.mem_filter.mp hx).2
  current_le := fun x hx => by simpa using (List.mem_filter.mp hx).2

/-- Behind a match the search stands before the next one, as matches are words. -/
theorem at_next (h : M.addrs = done ++ m :: rest) : At M (m + 4) (done ++ [m]) rest := by
  have hsorted := M.sorted
  rw [h] at hsorted
  obtain ⟨-, htail, hcross⟩ := List.pairwise_append.mp hsorted
  have hmem : m ∈ M.addrs := by simp [h]
  refine ⟨by rw [h, List.append_assoc]; rfl, ?_, ?_⟩
  · intro x hx
    rcases List.mem_append.mp hx with hx | hx
    · have hlt := hcross x hx m List.mem_cons_self
      omega
    · rw [List.mem_singleton.mp hx]
      omega
  · intro x hx
    have hlt := (List.pairwise_cons.mp htail).1 x hx
    have hx4 := M.aligned x (by simp [h, hx])
    have hm4 := M.aligned m hmem
    omega

namespace At

/-- A search of a range finds the next match if the range has it. -/
theorem search_some (h : At M current done rest) (stop : ℕ) :
    M.search current (some stop) = rest.head?.filter (· < stop) := by
  have hdone : done.find? (fun m => decide (current ≤ m ∧ m < stop)) = none := by
    rw [List.find?_eq_none]
    intro x hx
    have hlt := h.lt_current x hx
    simp only [decide_eq_true_eq]
    omega
  rw [Matches.search, h.addrs_eq, List.find?_append, hdone, Option.none_or]
  cases rest with
  | nil => rfl
  | cons m rest =>
    have hm := h.current_le m List.mem_cons_self
    by_cases hstop : m < stop
    · rw [List.find?_cons_of_pos (by simp [hm, hstop]), List.head?_cons,
        Option.filter_some_pos (by simpa using hstop)]
    -- what comes after a match behind the range is behind it as well
    · have hsorted := M.sorted
      rw [h.addrs_eq] at hsorted
      have htail := (List.pairwise_append.mp hsorted).2.1
      have hnone : (m :: rest).find? (fun m => decide (current ≤ m ∧ m < stop)) = none := by
        rw [List.find?_eq_none]
        intro x hx
        rcases List.mem_cons.mp hx with rfl | hx
        · simp [hstop]
        · have hlt := (List.pairwise_cons.mp htail).1 x hx
          simp only [decide_eq_true_eq]
          omega
      rw [hnone, List.head?_cons, Option.filter_some_neg (by simpa using hstop)]

/-- A search around the address space finds the next match, or else the first of all. -/
theorem search_none (h : At M current done rest) :
    M.search current none = rest.head?.or (done ++ rest).head? := by
  have hdone : done.find? (fun m => decide (current ≤ m)) = none := by
    rw [List.find?_eq_none]
    intro x hx
    simpa using h.lt_current x hx
  rw [Matches.search, h.addrs_eq, List.find?_append, hdone, Option.none_or]
  cases rest with
  | nil => rfl
  | cons m rest =>
    rw [List.find?_cons_of_pos (by simpa using h.current_le m List.mem_cons_self)]
    rfl

/-- The request with the client's end. -/
theorem searchDisasm_eq (h : At M current done rest) (stop : ℕ) :
    searchDisasm M current stop =
      if current < stop then rest.head?.filter (· < stop)
      else rest.head?.or (done ++ rest).head? := by
  unfold searchDisasm
  split
  · exact h.search_some stop
  · exact h.search_none

/-- The matches behind one that is found are others. -/
theorem notMem_cons (h : At M (m + 4) done rest) {x : ℕ} (hx : x ∈ rest) (hseen : x ∉ seen) :
    x ∉ m :: seen := by
  have hle := h.current_le x hx
  exact List.not_mem_cons_of_ne_of_not_mem (by omega) hseen

end At

/-! ## The search of a range -/

theorem collectFrom_range (disasm : ℕ → Option (List Dict)) (wanted : ℕ) (hrange : start < stop)
    (h : At M current done rest) (hseen : ∀ x ∈ rest, x ∉ seen) :
    (collectFrom M disasm start stop wanted current seen).map Entry.address =
      (rest.filter (· < stop)).take wanted := by
  induction wanted generalizing current done rest seen with
  | zero => rw [collectFrom, List.map_nil, List.take_zero]
  | succ wanted ih =>
    rw [collectFrom]
    by_cases hover : stop ≤ current
    · have hnone : rest.filter (· < stop) = [] := by
        rw [List.filter_eq_nil_iff]
        intro x hx
        have hle := h.current_le x hx
        simp only [decide_eq_true_eq]
        omega
      rw [if_pos ⟨hrange, hover⟩, hnone, List.take_nil, List.map_nil]
    · rw [if_neg fun hstop => hover hstop.2, h.searchDisasm_eq, if_pos (not_le.mp hover)]
      cases rest with
      | nil => rfl
      | cons m rest =>
        have hnext := at_next h.addrs_eq
        by_cases hm : m < stop
        · have hfresh : ∀ x ∈ rest, x ∉ m :: seen := fun x hx =>
            hnext.notMem_cons hx (hseen x (List.mem_cons_of_mem _ hx))
          rw [List.head?_cons, Option.filter_some_pos (by simpa using hm),
            List.filter_cons_of_pos (by simpa using hm), List.take_succ_cons]
          dsimp only
          rw [if_neg (hseen m List.mem_cons_self), List.map_cons, address_entry, ih hnext hfresh]
        -- the next match is behind the range, and so are all after it
        · have hnone : (m :: rest).filter (· < stop) = [] := by
            rw [List.filter_eq_nil_iff]
            intro x hx
            rcases List.mem_cons.mp hx with rfl | hx
            · simpa using hm
            · have hle := hnext.current_le x hx
              simp only [decide_eq_true_eq]
              omega
          rw [List.head?_cons, Option.filter_some_neg (by simpa using hm), hnone, List.take_nil]
          rfl

/-! ## The search around the address space -/

/-- What is found of some matches before the start: the search ends in a gap that the end
lies in. -/
def cut (stop : ℕ) : ℕ → List ℕ → List ℕ
  | _, [] => []
  | current, m :: rest => if current < stop ∧ stop ≤ m then [] else m :: cut stop (m + 4) rest

/-- A request at the start of the search that finds a new match. -/
theorem collectFrom_of_found (hstop : stop ≤ start) (hfound : searchDisasm M current stop = some m)
    (hfresh : m ∉ seen) :
    (collectFrom M disasm start stop (wanted + 1) current seen).map Entry.address =
      m :: (collectFrom M disasm start stop wanted (m + 4) (m :: seen)).map Entry.address := by
  rw [collectFrom, if_neg fun hrange => absurd hrange.1 (not_lt.mpr hstop), hfound]
  dsimp only
  rw [if_neg hfresh, List.map_cons, address_entry]

/-- A request that finds nothing, or nothing new, is the last one. -/
theorem collectFrom_of_seen (hstop : stop ≤ start)
    (hfound : ∀ m, searchDisasm M current stop = some m → m ∈ seen) :
    collectFrom M disasm start stop (wanted + 1) current seen = [] := by
  rw [collectFrom, if_neg fun hrange => absurd hrange.1 (not_lt.mpr hstop)]
  cases hsearch : searchDisasm M current stop with
  | none => rfl
  | some m => exact if_pos (hfound m hsearch)

/-- The search after it has wrapped. -/
theorem collectFrom_wrapped {first late : List ℕ} (hstop : stop ≤ start)
    (h : At M current first (rest ++ late)) (hfirst : first ≠ [])
    (hseen : ∀ x ∈ first ++ late, x ∈ seen) (hfresh : ∀ x ∈ rest, x ∉ seen)
    (hlate : ∀ x ∈ late, start ≤ x) :
    (collectFrom M disasm start stop wanted current seen).map Entry.address =
      (cut stop current rest).take wanted := by
  induction wanted generalizing current first rest seen with
  | zero => rw [collectFrom, List.map_nil, List.take_zero]
  | succ wanted ih =>
    have hsearch := h.searchDisasm_eq stop
    cases rest with
    | nil =>
      -- what is found now, if anything is, has been seen
      rw [collectFrom_of_seen hstop, cut, List.take_nil, List.map_nil]
      intro m hm
      rw [hsearch, List.nil_append] at hm
      split at hm
      · obtain ⟨hhead, hlt⟩ := Option.filter_eq_some_iff.mp hm
        have hle := hlate m (List.mem_of_mem_head? hhead)
        rw [decide_eq_true_eq] at hlt
        omega
      · refine hseen m ?_
        rcases Option.or_eq_some_iff.mp hm with hhead | ⟨-, hhead⟩
        · exact List.mem_append_right _ (List.mem_of_mem_head? hhead)
        · exact List.mem_of_mem_head? hhead
    | cons m rest =>
      rw [cut]
      by_cases hgap : current < stop ∧ stop ≤ m
      -- the end that is sent now cuts off what is left
      · rw [if_pos hgap, collectFrom_of_seen hstop, List.take_nil, List.map_nil]
        intro x hx
        rw [hsearch, if_pos hgap.1, List.cons_append, List.head?_cons,
          Option.filter_some_neg (by simpa using hgap.2)] at hx
        cases hx
      · have hfound : searchDisasm M current stop = some m := by
          rw [hsearch, List.cons_append, List.head?_cons]
          split
          · exact Option.filter_some_pos (by simp only [decide_eq_true_eq]; omega)
          · rfl
        have hnext := at_next h.addrs_eq
        rw [if_neg hgap, List.take_succ_cons,
          collectFrom_of_found hstop hfound (hfresh m List.mem_cons_self)]
        refine congrArg (m :: ·) (ih hnext (by simp) ?_ ?_)
        · intro x hx
          rcases List.mem_append.mp hx with hx | hx
          · rcases List.mem_append.mp hx with hx | hx
            · exact List.mem_cons_of_mem _ (hseen x (List.mem_append_left _ hx))
            · rw [List.mem_singleton.mp hx]
              exact List.mem_cons_self
          · exact List.mem_cons_of_mem _ (hseen x (List.mem_append_right _ hx))
        · exact fun x hx => hnext.notMem_cons (List.mem_append_left _ hx)
            (hfresh x (List.mem_cons_of_mem _ hx))

/-- The search before it wraps. -/
theorem collectFrom_around {early : List ℕ} (hstop : stop ≤ start) (hcurrent : start ≤ current)
    (h : At M current (early ++ done) rest) (hseen : ∀ x, x ∈ seen ↔ x ∈ done)
    (hearly : ∀ x ∈ early, x < start) (hlate : ∀ x ∈ done ++ rest, start ≤ x) :
    (collectFrom M disasm start stop wanted current seen).map Entry.address =
      (rest ++ cut stop start early).take wanted := by
  induction wanted generalizing current done rest seen with
  | zero => rw [collectFrom, List.map_nil, List.take_zero]
  | succ wanted ih =>
    have hsearch := h.searchDisasm_eq stop
    rw [if_neg (by omega)] at hsearch
    cases rest with
    | nil =>
      rw [List.nil_append]
      rw [List.head?_nil, Option.none_or, List.append_nil] at hsearch
      cases early with
      -- without a match before the start the search is back at the first one of all
      | nil =>
        rw [collectFrom_of_seen hstop, cut, List.take_nil, List.map_nil]
        intro m hm
        rw [hsearch, List.nil_append] at hm
        exact (hseen m).mpr (List.mem_of_mem_head? hm)
      -- it wraps to the first match before the start, which is a new one
      | cons b early =>
        have hb := hearly b List.mem_cons_self
        have hfresh : b ∉ seen := by
          intro hmem
          have hle := hlate b (List.mem_append_left _ ((hseen b).mp hmem))
          omega
        have haddrs : M.addrs = [] ++ b :: (early ++ done) := by
          rw [h.addrs_eq, List.append_nil]
          rfl
        have hnext := at_next haddrs
        rw [cut, if_neg (by omega), List.take_succ_cons, collectFrom_of_found hstop hsearch hfresh]
        refine congrArg (b :: ·) (collectFrom_wrapped hstop hnext (by simp) ?_ ?_ ?_)
        · intro x hx
          rcases List.mem_cons.mp hx with rfl | hx
          · exact List.mem_cons_self
          · exact List.mem_cons_of_mem _ ((hseen x).mpr hx)
        · intro x hx
          refine hnext.notMem_cons (List.mem_append_left _ hx) fun hmem => ?_
          have hlt := hearly x (List.mem_cons_of_mem _ hx)
          have hle := hlate x (List.mem_append_left _ ((hseen x).mp hmem))
          omega
        · exact fun x hx => hlate x (List.mem_append_left _ hx)
    | cons m rest =>
      have hfresh : m ∉ seen := by
        intro hmem
        have hlt := h.lt_current m (List.mem_append_right _ ((hseen m).mp hmem))
        have hle := h.current_le m List.mem_cons_self
        omega
      have hnext := at_next h.addrs_eq
      rw [List.append_assoc] at hnext
      have hle := h.current_le m List.mem_cons_self
      rw [List.cons_append, List.take_succ_cons, collectFrom_of_found hstop hsearch hfresh]
      refine congrArg (m :: ·) (ih (by omega) hnext ?_ ?_)
      · intro x
        rw [List.mem_cons, List.mem_append, List.mem_singleton, hseen, or_comm]
      · intro x hx
        rw [List.append_assoc] at hx
        exact hlate x hx

/-- What is collected of a search around the address space. -/
theorem collectMatches_around (hstop : stop ≤ start) {maxResults : ℕ} :
    (collectMatches M disasm start stop maxResults).map Entry.address =
      (M.after start ++ cut stop start (M.before start)).take maxResults := by
  have h : At M start (M.before start ++ []) (M.after start) := by
    rw [List.append_nil]
    exact at_start M start
  refine collectFrom_around hstop (le_refl start) h (fun x => Iff.rfl) ?_ ?_
  · intro x hx
    rw [← List.append_nil (M.before start)] at hx
    exact h.lt_current x hx
  · exact fun x hx => h.current_le x hx

/-! ## The gap -/

/-- The search ends in a gap that the end lies in. -/
theorem cut_of_gap {front : List ℕ} {k : ℕ} (hfront : ∀ x ∈ front, x < stop) (hm : m + 4 < stop)
    (hk : stop ≤ k) : cut stop current (front ++ m :: k :: rest) = front ++ [m] := by
  induction front generalizing current with
  | nil =>
    rw [List.nil_append, cut, if_neg (by omega), cut, if_pos ⟨hm, hk⟩]
    rfl
  | cons a front ih =>
    have ha := hfront a List.mem_cons_self
    rw [List.cons_append, cut, if_neg (by omega),
      ih fun x hx => hfront x (List.mem_cons_of_mem _ hx)]
    rfl

/-- Without such a gap the search goes on behind a match. -/
theorem cut_eq_or_of_cons (stop m : ℕ) (l : List ℕ) : cut stop (m + 4) l = l ∨
    ∃ front m' k rest, m :: l = front ++ m' :: k :: rest ∧ m' + 4 < stop ∧ stop ≤ k := by
  induction l generalizing m with
  | nil => exact Or.inl rfl
  | cons k l ih =>
    by_cases hgap : m + 4 < stop ∧ stop ≤ k
    · exact Or.inr ⟨[], m, k, l, rfl, hgap.1, hgap.2⟩
    · rw [cut, if_neg hgap]
      rcases ih k with hwhole | ⟨front, m', k', rest, hl, hm, hk⟩
      · rw [hwhole]
        exact Or.inl rfl
      · exact Or.inr ⟨m :: front, m', k', rest, congrArg (m :: ·) hl, hm, hk⟩

/-- Without such a gap the search finds all matches. -/
theorem cut_eq_or (l : List ℕ) (hcurrent : stop ≤ current) : cut stop current l = l ∨
    ∃ front m k rest, l = front ++ m :: k :: rest ∧ m + 4 < stop ∧ stop ≤ k := by
  cases l with
  | nil => exact Or.inl rfl
  | cons m l =>
    rw [cut, if_neg fun hgap => absurd hgap.1 (not_lt.mpr hcurrent)]
    rcases cut_eq_or_of_cons stop m l with hwhole | hgap
    · rw [hwhole]
      exact Or.inl rfl
    · exact Or.inr hgap

/-- The matches before the first one of a gap come before the end as well. -/
theorem lt_of_gap {front : List ℕ} {k : ℕ} (hbefore : M.before start = front ++ m :: k :: rest)
    (hm : m + 4 < stop) : ∀ x ∈ front, x < stop := by
  have hsorted : (M.before start).Pairwise (· < ·) := M.sorted.filter _
  rw [hbefore] at hsorted
  intro x hx
  have hlt := (List.pairwise_append.mp hsorted).2.2 x hx m List.mem_cons_self
  omega

/-- The matches of a search are collected, each once and in order up to the cap, exactly when
it does not turn from one around the address space into one of a range. -/
theorem collectMatches_iff (M : Matches) (disasm : ℕ → Option (List Dict))
    (start stop maxResults : ℕ) :
    (collectMatches M disasm start stop maxResults).map Entry.address =
        (inOrder M start stop).take maxResults ↔
      ¬ TurnsIntoRange M start stop maxResults := by
  by_cases hrange : start < stop
  · have hall : M.addrs.filter (fun m => decide (start ≤ m ∧ m < stop)) =
        (M.after start).filter (· < stop) := by
      rw [Matches.after, List.filter_filter]
      congr 1
      funext m
      rw [Bool.decide_and, Bool.and_comm]
    have hcollected := collectFrom_range disasm maxResults hrange (at_start M start)
      fun x _ => List.not_mem_nil
    refine iff_of_true ?_ fun hturns => absurd hturns.1 (not_le.mpr hrange)
    rw [inOrder, if_pos hrange, hall]
    exact hcollected
  · have hstop := not_lt.mp hrange
    rw [collectMatches_around hstop, inOrder, if_neg hrange]
    constructor
    -- the gap leaves at least one match out that is wanted
    · rintro heq ⟨-, front, m, k, rest, hbefore, hm, hk, hwanted⟩
      have hlength := congrArg List.length heq
      rw [hbefore, cut_of_gap (lt_of_gap hbefore hm) hm hk] at hlength
      simp only [List.length_take, List.length_append, List.length_cons, List.length_nil]
        at hlength
      omega
    · intro hwhole
      rcases cut_eq_or (M.before start) hstop with hcut | ⟨front, m, k, rest, hbefore, hm, hk⟩
      · rw [hcut]
      -- the cap is reached before the gap
      · have hcap : maxResults ≤ (M.after start ++ (front ++ [m])).length := by
          rw [List.length_append, List.length_append, List.length_singleton, ← Nat.add_assoc]
          by_contra hwanted
          exact hwhole ⟨hstop, front, m, k, rest, hbefore, hm, hk, not_le.mp hwanted⟩
        have hsplit : front ++ m :: k :: rest = front ++ [m] ++ k :: rest := by simp
        rw [hbefore, cut_of_gap (lt_of_gap hbefore hm) hm hk, hsplit,
          ← List.append_assoc (M.after start) (front ++ [m]), List.take_append_of_le_length hcap]

/-- A search is for each match in its range. -/
theorem mem_inOrder_iff : m ∈ inOrder M start stop ↔
    m ∈ M.addrs ∧ (start < stop → start ≤ m ∧ m < stop) := by
  unfold inOrder
  split
  · rename_i hrange
    simp [hrange]
  · rename_i hrange
    rw [← before_append_after M start, List.mem_append, List.mem_append, or_comm]
    simp [hrange]

/-- A search is for each match once. -/
theorem nodup_inOrder : (inOrder M start stop).Nodup := by
  have hnodup : M.addrs.Nodup := M.sorted.imp ne_of_lt
  unfold inOrder
  split
  · exact hnodup.filter _
  · rw [← before_append_after M start] at hnodup
    exact (List.perm_append_comm.nodup_iff).mp hnodup

/-! ## A search that turns -/

/-- Two matches before the start, with the end between them. -/
def twoMatches : Matches where
  addrs := [0x08804000, 0x08806000]
  sorted := by decide
  aligned := by decide
  below := by decide

/-- The second match is never found. -/
theorem not_collected_twoMatches :
    ¬ ∀ (M : Matches) (disasm : ℕ → Option (List Dict)) (start stop maxResults : ℕ),
      (collectMatches M disasm start stop maxResults).map Entry.address =
        (inOrder M start stop).take maxResults := by
  intro hall
  exact absurd (hall twoMatches (fun _ => none) 0x08808000 0x08805000 100) (by decide)

end Disasm
