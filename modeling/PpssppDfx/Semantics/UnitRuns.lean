import Mathlib.Data.List.Infix
import Mathlib.Data.Nat.Notation

/-!
# Runs of units

A list is read as units of one or more elements, where the elements at the front decide
whether a unit begins there and how long it is. A run takes units as long as there are. The
runs of a list with at least so many units are found from left to right, one behind the other.

A list that is cut in two has the runs of its parts, as long as none of its runs goes over the
cut. This is said for the first runs as well, up to a number of runs that pass a test.

## Main definitions

* `Units` — how units are read
* `Units.ofFront` — units that are known by their first element
* `Units.longest` — the units at the front, and how many elements they take
* `Units.runs` — the runs with at least so many units
* `upTo` — the elements up to a number of those that pass a test

## Main results

* `Units.upTo_runs_append` — the first runs of a list that is cut where none of them is
-/

set_option autoImplicit false

namespace Semantics

variable {α β γ : Type*}

/-! ## The first elements -/

/-- The elements of a list until so many of them have passed the test. -/
def upTo (keep : β → Option γ) : ℕ → List β → List β
  | 0, _ => []
  | _ + 1, [] => []
  | n + 1, b :: bs =>
    match keep b with
    | some _ => b :: upTo keep n bs
    | none => b :: upTo keep (n + 1) bs

section UpTo

variable {keep : β → Option γ} {n : ℕ} {b : β} {bs cs : List β}

@[simp] theorem upTo_zero : upTo keep 0 bs = [] := by cases bs <;> rfl

@[simp] theorem upTo_nil : upTo keep n [] = [] := by cases n <;> rfl

theorem upTo_cons_some {c : γ} (h : keep b = some c) :
    upTo keep (n + 1) (b :: bs) = b :: upTo keep n bs := by
  rw [upTo, h]

theorem upTo_cons_none (h : keep b = none) :
    upTo keep (n + 1) (b :: bs) = b :: upTo keep (n + 1) bs := by
  rw [upTo, h]

theorem filterMap_upTo : (upTo keep n bs).filterMap keep = (bs.filterMap keep).take n := by
  induction bs generalizing n with
  | nil => simp
  | cons b bs ih =>
    cases n with
    | zero => simp
    | succ n =>
      cases hkeep : keep b with
      | none => rw [upTo_cons_none hkeep, List.filterMap_cons_none hkeep,
          List.filterMap_cons_none hkeep, ih]
      | some c => rw [upTo_cons_some hkeep, List.filterMap_cons_some hkeep,
          List.filterMap_cons_some hkeep, ih, List.take_succ_cons]

theorem upTo_append :
    upTo keep n (bs ++ cs) = upTo keep n bs ++ upTo keep (n - (bs.filterMap keep).length) cs := by
  induction bs generalizing n with
  | nil => simp
  | cons b bs ih =>
    cases n with
    | zero => simp
    | succ n =>
      cases hkeep : keep b with
      | none => rw [List.cons_append, upTo_cons_none hkeep, upTo_cons_none hkeep, ih,
          List.filterMap_cons_none hkeep, List.cons_append]
      | some c => rw [List.cons_append, upTo_cons_some hkeep, upTo_cons_some hkeep, ih,
          List.filterMap_cons_some hkeep, List.length_cons, Nat.add_sub_add_right,
          List.cons_append]

/-- The elements that follow the first one are counted on alike, whatever they are. -/
theorem exists_upTo_cons (keep : β → Option γ) (n : ℕ) (b : β) :
    ∃ m, ∀ bs, upTo keep (n + 1) (b :: bs) = b :: upTo keep m bs := by
  cases hkeep : keep b with
  | none => exact ⟨n + 1, fun _ => upTo_cons_none hkeep⟩
  | some c => exact ⟨n, fun _ => upTo_cons_some hkeep⟩

theorem mem_of_mem_upTo (h : b ∈ upTo keep n bs) : b ∈ bs := by
  induction bs generalizing n with
  | nil => simp at h
  | cons a bs ih =>
    cases n with
    | zero => simp at h
    | succ n =>
      obtain ⟨m, hm⟩ := exists_upTo_cons keep n a
      rw [hm] at h
      rcases List.mem_cons.mp h with rfl | h
      · exact List.mem_cons_self
      · exact List.mem_cons_of_mem _ (ih h)

end UpTo

/-! ## Units -/

/-- How units are read at the front of a list. -/
structure Units (α : Type*) where
  /-- The length of the unit at the front. -/
  read : List α → Option ℕ
  pos : ∀ {d l}, read d = some l → 0 < l
  fits : ∀ {d l}, read d = some l → l ≤ d.length
  /-- A unit depends on nothing but its own elements. -/
  own : ∀ {d d' l}, read d = some l → d.take l <+: d' → read d' = some l

namespace Units

variable {u : Units α} {d d' xs ys : List α} {l : ℕ}

theorem read_append (h : u.read xs = some l) : u.read (xs ++ ys) = some l :=
  u.own h ((List.take_prefix _ _).trans (List.prefix_append _ _))

theorem read_of_append (h : u.read (xs ++ ys) = some l) (hle : l ≤ xs.length) :
    u.read xs = some l := by
  refine u.own h ?_
  rw [List.take_append_of_le_length hle]
  exact List.take_prefix _ _

variable (u)

/-- Units from the front on, as far as the fuel goes. -/
def munch : ℕ → List α → ℕ × ℕ
  | 0, _ => (0, 0)
  | fuel + 1, d =>
    match u.read d with
    | none => (0, 0)
    | some l => ((munch fuel (d.drop l)).1 + 1, l + (munch fuel (d.drop l)).2)

/-- How many units stand at the front one behind the other, and how many elements they take. -/
def longest (d : List α) : ℕ × ℕ := u.munch d.length d

variable {u}

/-- More fuel than elements changes nothing. -/
theorem munch_eq_longest {fuel : ℕ} (h : d.length ≤ fuel) : u.munch fuel d = u.longest d := by
  -- every unit takes an element, so the two fuels go down together with the list
  suffices hall : ∀ n fuel fuel' (d : List α), d.length ≤ n → d.length ≤ fuel → d.length ≤ fuel' →
      u.munch fuel d = u.munch fuel' d from hall d.length fuel d.length d le_rfl h le_rfl
  intro n
  induction n with
  | zero =>
    intro fuel fuel' d hn _ _
    have hread : u.read d = none := by
      cases hread : u.read d with
      | none => rfl
      | some l => exact absurd (u.pos hread) (by have := u.fits hread; omega)
    cases fuel <;> cases fuel' <;> simp [munch, hread]
  | succ n ih =>
    intro fuel fuel' d hn hfuel hfuel'
    cases hread : u.read d with
    | none => cases fuel <;> cases fuel' <;> simp [munch, hread]
    | some l =>
      have hpos := u.pos hread
      have hfits := u.fits hread
      obtain ⟨fuel, rfl⟩ := Nat.exists_eq_succ_of_ne_zero (by omega : fuel ≠ 0)
      obtain ⟨fuel', rfl⟩ := Nat.exists_eq_succ_of_ne_zero (by omega : fuel' ≠ 0)
      have hrest : (d.drop l).length = d.length - l := List.length_drop
      have htail := ih fuel fuel' (d.drop l) (by omega) (by omega) (by omega)
      simp only [munch, hread, htail]

theorem longest_of_none (h : u.read d = none) : u.longest d = (0, 0) := by
  rw [longest]
  cases d <;> simp [munch, h]

theorem longest_of_some (h : u.read d = some l) :
    u.longest d = ((u.longest (d.drop l)).1 + 1, l + (u.longest (d.drop l)).2) := by
  have hpos := u.pos h
  have hfits := u.fits h
  obtain ⟨fuel, hfuel⟩ := Nat.exists_eq_succ_of_ne_zero (by omega : d.length ≠ 0)
  have hrest : (d.drop l).length ≤ fuel := by
    rw [List.length_drop]
    omega
  rw [longest, hfuel, Nat.succ_eq_add_one, munch, h]
  simp only [munch_eq_longest hrest]

@[simp] theorem longest_nil : u.longest [] = (0, 0) := rfl

/-- A rule for facts about the units at the front: one unit, and what stands behind it. -/
theorem induction_on {P : List α → Prop} (d : List α)
    (hnone : ∀ d, u.read d = none → P d)
    (hsome : ∀ d l, u.read d = some l → P (d.drop l) → P d) : P d := by
  induction hn : d.length using Nat.strong_induction_on generalizing d with
  | _ n ih =>
    cases hread : u.read d with
    | none => exact hnone d hread
    | some l =>
      have hpos := u.pos hread
      have hfits := u.fits hread
      exact hsome d l hread (ih _ (by rw [List.length_drop]; omega) _ rfl)

theorem longest_snd_le (d : List α) : (u.longest d).2 ≤ d.length := by
  induction d using u.induction_on with
  | hnone d h => simp [longest_of_none h]
  | hsome d l h ih =>
    have hfits := u.fits h
    rw [List.length_drop] at ih
    rw [longest_of_some h]
    dsimp only
    omega

/-- Every unit takes an element. -/
theorem longest_fst_le_snd (d : List α) : (u.longest d).1 ≤ (u.longest d).2 := by
  induction d using u.induction_on with
  | hnone d h => simp [longest_of_none h]
  | hsome d l h ih =>
    have hpos := u.pos h
    rw [longest_of_some h]
    dsimp only
    omega

/-- More elements make for no fewer units. -/
theorem longest_fst_le_append (xs ys : List α) :
    (u.longest xs).1 ≤ (u.longest (xs ++ ys)).1 := by
  induction xs using u.induction_on with
  | hnone d h => simp [longest_of_none h]
  | hsome d l h ih =>
    rw [longest_of_some h, longest_of_some (read_append h),
      List.drop_append_of_le_length (u.fits h)]
    dsimp only
    omega

/-- Units that end inside the first part are the units of the first part. -/
theorem longest_append (h : (u.longest (xs ++ ys)).2 ≤ xs.length) :
    u.longest xs = u.longest (xs ++ ys) := by
  induction hn : xs.length using Nat.strong_induction_on generalizing xs with
  | _ n ih =>
    cases hread : u.read (xs ++ ys) with
    | none =>
      have hfirst : u.read xs = none := by
        cases hfirst : u.read xs with
        | none => rfl
        | some l => rw [read_append hfirst] at hread; cases hread
      rw [longest_of_none hread, longest_of_none hfirst]
    | some l =>
      rw [longest_of_some hread] at h
      have hle : l ≤ xs.length := by
        dsimp only at h
        omega
      have hpos := u.pos hread
      have hdrop : (xs ++ ys).drop l = xs.drop l ++ ys := List.drop_append_of_le_length hle
      rw [hdrop] at h
      have hshorter : (xs.drop l).length < n := by
        rw [List.length_drop]
        omega
      have hinside : (u.longest (xs.drop l ++ ys)).2 ≤ (xs.drop l).length := by
        rw [List.length_drop]
        dsimp only at h
        omega
      have hrest : u.longest (xs.drop l) = u.longest (xs.drop l ++ ys) := ih _ hshorter hinside rfl
      rw [longest_of_some hread, longest_of_some (read_of_append hread hle), hdrop, hrest]

/-! ### Units by their first element -/

/-- The unit at the front: its first element says how many others belong to it and which
elements they may be. -/
def readFront (front : α → Option (ℕ × (α → Bool))) : List α → Option ℕ
  | [] => none
  | a :: rest =>
    match front a with
    | none => none
    | some (k, inside) =>
      if k ≤ rest.length ∧ (rest.take k).all inside then some (k + 1) else none

theorem readFront_eq_some_iff {front : α → Option (ℕ × (α → Bool))} :
    readFront front d = some l ↔ ∃ a rest k inside, d = a :: rest ∧ front a = some (k, inside) ∧
      l = k + 1 ∧ k ≤ rest.length ∧ (rest.take k).all inside = true := by
  constructor
  · intro h
    cases d with
    | nil => cases h
    | cons a rest =>
      cases hfront : front a with
      | none => simp only [readFront, hfront] at h; cases h
      | some shape =>
        obtain ⟨k, inside⟩ := shape
        simp only [readFront, hfront] at h
        split_ifs at h with hrest
        cases h
        exact ⟨a, rest, k, inside, rfl, hfront, rfl, hrest⟩
  · rintro ⟨a, rest, k, inside, rfl, hfront, rfl, hrest⟩
    simp only [readFront, hfront, if_pos hrest]

/-- Units that are known by their first element. -/
def ofFront (front : α → Option (ℕ × (α → Bool))) : Units α where
  read := readFront front
  pos h := by
    obtain ⟨_, _, _, _, -, -, rfl, -⟩ := readFront_eq_some_iff.mp h
    exact Nat.succ_pos _
  fits h := by
    obtain ⟨_, _, _, _, rfl, -, rfl, hlength, -⟩ := readFront_eq_some_iff.mp h
    exact Nat.succ_le_succ hlength
  own h hprefix := by
    obtain ⟨a, rest, k, inside, rfl, hfront, rfl, hlength, hall⟩ := readFront_eq_some_iff.mp h
    obtain ⟨behind, rfl⟩ := hprefix
    have htaken : (rest.take k).length = k := List.length_take_of_le hlength
    refine readFront_eq_some_iff.mpr ⟨a, rest.take k ++ behind, k, inside, rfl, hfront, rfl, ?_, ?_⟩
    · rw [List.length_append, htaken]
      exact Nat.le_add_right _ _
    · rwa [List.take_append_of_le_length htaken.ge, List.take_of_length_le htaken.le]

end Units

/-! ## Runs -/

/-- A run: where it begins, and its elements. -/
structure Stretch (α : Type*) where
  start : ℕ
  content : List α
  deriving DecidableEq

namespace Stretch

/-- The run begins before the point and ends behind it. -/
def Crosses (r : Stretch α) (point : ℕ) : Prop :=
  r.start < point ∧ point < r.start + r.content.length

def shift (base : ℕ) (r : Stretch α) : Stretch α := ⟨base + r.start, r.content⟩

end Stretch

namespace Units

variable (u : Units α) (least : ℕ)

/-- The runs with at least so many units, as far as the fuel goes; the list begins at `pos`. -/
def runsFrom : ℕ → ℕ → List α → List (Stretch α)
  | 0, _, _ => []
  | _ + 1, _, [] => []
  | fuel + 1, pos, a :: d =>
    if least ≤ (u.longest (a :: d)).1 then
      ⟨pos, (a :: d).take (u.longest (a :: d)).2⟩ ::
        runsFrom fuel (pos + (u.longest (a :: d)).2) ((a :: d).drop (u.longest (a :: d)).2)
    else runsFrom fuel (pos + 1) d

/-- The runs with at least so many units, from left to right. -/
def runs (pos : ℕ) (d : List α) : List (Stretch α) := u.runsFrom least d.length pos d

variable {u least} {pos : ℕ} {a : α} {d xs ys : List α} {r : Stretch α}

@[simp] theorem runs_nil : u.runs least pos [] = [] := rfl

/-- A run that counts has an element. -/
theorem longest_snd_pos (hleast : 0 < least) (h : least ≤ (u.longest d).1) :
    0 < (u.longest d).2 :=
  hleast.trans_le (h.trans (longest_fst_le_snd d))

/-- More fuel than elements changes nothing. -/
theorem runsFrom_eq_runs (hleast : 0 < least) {fuel : ℕ} (h : d.length ≤ fuel) :
    u.runsFrom least fuel pos d = u.runs least pos d := by
  suffices hall : ∀ n fuel fuel' pos (d : List α), d.length ≤ n → d.length ≤ fuel →
      d.length ≤ fuel' → u.runsFrom least fuel pos d = u.runsFrom least fuel' pos d from
    hall d.length fuel d.length pos d le_rfl h le_rfl
  intro n
  induction n with
  | zero =>
    intro fuel fuel' pos d hn _ _
    obtain rfl := List.eq_nil_of_length_eq_zero (Nat.le_zero.mp hn)
    cases fuel <;> cases fuel' <;> rfl
  | succ n ih =>
    intro fuel fuel' pos d hn hfuel hfuel'
    cases d with
    | nil => cases fuel <;> cases fuel' <;> rfl
    | cons a d =>
      rw [List.length_cons] at hn hfuel hfuel'
      obtain ⟨fuel, rfl⟩ := Nat.exists_eq_succ_of_ne_zero (by omega : fuel ≠ 0)
      obtain ⟨fuel', rfl⟩ := Nat.exists_eq_succ_of_ne_zero (by omega : fuel' ≠ 0)
      simp only [runsFrom]
      split_ifs with hcounts
      · have hpos := longest_snd_pos hleast hcounts
        have hrest : ((a :: d).drop (u.longest (a :: d)).2).length ≤ d.length := by
          rw [List.length_drop, List.length_cons]
          omega
        rw [ih fuel fuel' _ _ (by omega) (by omega) (by omega)]
      · exact ih fuel fuel' _ _ (by omega) (by omega) (by omega)

/-- A run begins at the front, and the others are those of what is left. -/
theorem runs_of_le (hleast : 0 < least) (h : least ≤ (u.longest (a :: d)).1) :
    u.runs least pos (a :: d) = ⟨pos, (a :: d).take (u.longest (a :: d)).2⟩ ::
      u.runs least (pos + (u.longest (a :: d)).2) ((a :: d).drop (u.longest (a :: d)).2) := by
  have hpos := longest_snd_pos hleast h
  have hrest : ((a :: d).drop (u.longest (a :: d)).2).length ≤ d.length := by
    rw [List.length_drop, List.length_cons]
    omega
  rw [runs, List.length_cons, runsFrom, if_pos h, runsFrom_eq_runs hleast hrest]

/-- No run begins at the front. -/
theorem runs_of_lt (h : (u.longest (a :: d)).1 < least) :
    u.runs least pos (a :: d) = u.runs least (pos + 1) d := by
  rw [runs, List.length_cons, runsFrom, if_neg (Nat.not_le.mpr h)]
  rfl

/-- A rule for facts about the runs of a list: it is empty, or a run begins at the front, or
none does. -/
theorem runs_induction {P : ℕ → List α → Prop} (hleast : 0 < least)
    (hnil : ∀ pos, P pos [])
    (hrun : ∀ pos a d, least ≤ (u.longest (a :: d)).1 →
      P (pos + (u.longest (a :: d)).2) ((a :: d).drop (u.longest (a :: d)).2) → P pos (a :: d))
    (hgap : ∀ pos a d, (u.longest (a :: d)).1 < least → P (pos + 1) d → P pos (a :: d))
    (pos : ℕ) (d : List α) : P pos d := by
  induction hn : d.length using Nat.strong_induction_on generalizing pos d with
  | _ n ih =>
    cases d with
    | nil => exact hnil pos
    | cons a d =>
      rw [List.length_cons] at hn
      rcases Nat.lt_or_ge (u.longest (a :: d)).1 least with hlt | hle
      · exact hgap pos a d hlt (ih d.length (by omega) _ _ rfl)
      · have hpos := longest_snd_pos hleast hle
        have hshorter : ((a :: d).drop (u.longest (a :: d)).2).length < n := by
          rw [List.length_drop, List.length_cons]
          omega
        exact hrun pos a d hle (ih _ hshorter _ _ rfl)

/-- The runs of a list that begins elsewhere. -/
theorem runs_shift (hleast : 0 < least) (base pos : ℕ) (d : List α) :
    u.runs least (base + pos) d = (u.runs least pos d).map (Stretch.shift base) := by
  refine runs_induction (u := u) (P := fun pos d => u.runs least (base + pos) d =
    (u.runs least pos d).map (Stretch.shift base)) hleast (fun _ => rfl) ?_ ?_ pos d
  · intro pos a d hle ih
    rw [runs_of_le hleast hle, runs_of_le hleast hle, List.map_cons, ← ih, Nat.add_assoc]
    rfl
  · intro pos a d hlt ih
    rw [runs_of_lt hlt, runs_of_lt hlt, ← ih, Nat.add_assoc]

/-- A run lies in the list, and has the elements that stand there. -/
theorem exists_of_mem_runs (hleast : 0 < least) (hr : r ∈ u.runs least pos d) :
    ∃ i, r.start = pos + i ∧ r.content <+: d.drop i ∧ r.content ≠ [] := by
  refine runs_induction (u := u) (P := fun pos d => r ∈ u.runs least pos d →
    ∃ i, r.start = pos + i ∧ r.content <+: d.drop i ∧ r.content ≠ []) hleast ?_ ?_ ?_ pos d hr
  · intro pos hr
    cases hr
  · intro pos a d hle ih hr
    rw [runs_of_le hleast hle] at hr
    rcases List.mem_cons.mp hr with rfl | hr
    · refine ⟨0, rfl, List.take_prefix _ _, fun hempty => ?_⟩
      have hpos := longest_snd_pos hleast hle
      rw [List.take_eq_nil_iff] at hempty
      rcases hempty with hzero | hnil
      · omega
      · cases hnil
    · obtain ⟨i, hstart, hstands, hne⟩ := ih hr
      refine ⟨(u.longest (a :: d)).2 + i, by rw [hstart, Nat.add_assoc], ?_, hne⟩
      rwa [List.drop_drop] at hstands
  · intro pos a d hlt ih hr
    rw [runs_of_lt hlt] at hr
    obtain ⟨i, hstart, hstands, hne⟩ := ih hr
    exact ⟨i + 1, by rw [hstart]; omega, hstands, hne⟩

/-- A run at the front that ends before the cut is a run of the part before it. -/
theorem runs_append_of_le (pos : ℕ) (hleast : 0 < least)
    (h : least ≤ (u.longest (a :: (xs ++ ys))).1)
    (hinside : (u.longest (a :: (xs ++ ys))).2 ≤ (a :: xs).length) :
    u.runs least pos (a :: (xs ++ ys)) = ⟨pos, (a :: xs).take (u.longest (a :: xs)).2⟩ ::
        u.runs least (pos + (u.longest (a :: xs)).2)
          ((a :: xs).drop (u.longest (a :: xs)).2 ++ ys) ∧
      u.runs least pos (a :: xs) = ⟨pos, (a :: xs).take (u.longest (a :: xs)).2⟩ ::
        u.runs least (pos + (u.longest (a :: xs)).2) ((a :: xs).drop (u.longest (a :: xs)).2) := by
  have hsame : u.longest (a :: xs) = u.longest (a :: (xs ++ ys)) := longest_append hinside
  rw [← hsame] at hinside h
  refine ⟨?_, runs_of_le hleast h⟩
  have htake : (a :: (xs ++ ys)).take (u.longest (a :: xs)).2 =
      (a :: xs).take (u.longest (a :: xs)).2 := List.take_append_of_le_length hinside
  have hdrop : (a :: (xs ++ ys)).drop (u.longest (a :: xs)).2 =
      (a :: xs).drop (u.longest (a :: xs)).2 ++ ys := List.drop_append_of_le_length hinside
  rw [runs_of_le hleast (hsame ▸ h), ← hsame, htake, hdrop]

/-- A run at the front that does not go over the cut ends before it. -/
theorem longest_snd_le_of_not_crosses
    (h : ¬ (⟨pos, (a :: (xs ++ ys)).take (u.longest (a :: (xs ++ ys))).2⟩ : Stretch α).Crosses
      (pos + (a :: xs).length)) :
    (u.longest (a :: (xs ++ ys))).2 ≤ (a :: xs).length := by
  have hbound : (u.longest (a :: (xs ++ ys))).2 ≤ (a :: (xs ++ ys)).length := longest_snd_le _
  simp only [Stretch.Crosses, List.length_take, List.length_cons] at h hbound ⊢
  omega

/-- Where none of the first runs of a list goes over the cut, they are the runs of the part
before it, and then those of the part behind it. -/
theorem upTo_runs_append (hleast : 0 < least) {keep : Stretch α → Option γ} {n : ℕ}
    (hcut : ∀ r ∈ upTo keep n (u.runs least pos (xs ++ ys)), ¬ r.Crosses (pos + xs.length)) :
    upTo keep n (u.runs least pos (xs ++ ys)) =
      upTo keep n (u.runs least pos xs ++ u.runs least (pos + xs.length) ys) := by
  induction hlength : xs.length using Nat.strong_induction_on generalizing pos xs n with
  | _ m ih =>
    subst hlength
    cases n with
    | zero => rw [upTo_zero, upTo_zero]
    | succ n =>
      cases xs with
      | nil => rfl
      | cons a xs =>
        rw [List.cons_append] at hcut ⊢
        rcases Nat.lt_or_ge (u.longest (a :: (xs ++ ys))).1 least with hlt | hle
        · -- no run begins at the front of the whole, nor of the part
          have hpart : (u.longest (a :: xs)).1 < least :=
            (longest_fst_le_append (a :: xs) ys).trans_lt hlt
          have hnext : pos + (a :: xs).length = pos + 1 + xs.length := by
            rw [List.length_cons]
            omega
          rw [runs_of_lt hlt, hnext] at hcut
          rw [runs_of_lt hlt, runs_of_lt hpart, hnext]
          exact ih xs.length (Nat.lt_succ_self _) hcut rfl
        · -- the run at the front is among the first, so it ends before the cut
          obtain ⟨m, hm⟩ := exists_upTo_cons keep n
            ⟨pos, (a :: (xs ++ ys)).take (u.longest (a :: (xs ++ ys))).2⟩
          have hinside : (u.longest (a :: (xs ++ ys))).2 ≤ (a :: xs).length := by
            refine longest_snd_le_of_not_crosses (hcut _ ?_)
            rw [runs_of_le hleast hle, hm]
            exact List.mem_cons_self
          have hsame : u.longest (a :: xs) = u.longest (a :: (xs ++ ys)) :=
            longest_append hinside
          have hcounts : 0 < (u.longest (a :: xs)).2 := hsame ▸ longest_snd_pos hleast hle
          have hfits : (u.longest (a :: xs)).2 ≤ (a :: xs).length := longest_snd_le _
          have hend : pos + (u.longest (a :: xs)).2 +
              ((a :: xs).drop (u.longest (a :: xs)).2).length = pos + (a :: xs).length := by
            rw [List.length_drop]
            omega
          have hshorter : ((a :: xs).drop (u.longest (a :: xs)).2).length < (a :: xs).length := by
            rw [List.length_drop]
            omega
          have htake : (a :: (xs ++ ys)).take (u.longest (a :: (xs ++ ys))).2 =
              (a :: xs).take (u.longest (a :: xs)).2 := by
            rw [← hsame]
            exact List.take_append_of_le_length hfits
          rw [htake] at hm
          obtain ⟨hwhole, hpart⟩ := runs_append_of_le pos hleast hle hinside
          rw [hwhole, hm] at hcut
          rw [hwhole, hpart, List.cons_append, hm, hm, ← hend]
          -- behind the run a shorter list is left
          refine congrArg _ (ih _ hshorter (fun r hr => ?_) rfl)
          rw [hend]
          exact hcut r (List.mem_cons_of_mem _ hr)

/-- Elements at which no unit begins are passed over. -/
theorem runs_skip {m : ℕ} (hleast : 0 < least) (hm : m ≤ d.length)
    (hnone : ∀ i < m, u.read (d.drop i) = none) :
    u.runs least pos d = u.runs least (pos + m) (d.drop m) := by
  induction m generalizing pos d with
  | zero => rfl
  | succ m ih =>
    cases d with
    | nil => exact absurd hm (Nat.not_succ_le_zero m)
    | cons a d =>
      have hfront : u.read (a :: d) = none := hnone 0 (Nat.succ_pos m)
      have hlt : (u.longest (a :: d)).1 < least := by
        rw [longest_of_none hfront]
        exact hleast
      rw [runs_of_lt hlt, List.drop_succ_cons, Nat.add_comm m 1, ← Nat.add_assoc]
      exact ih (Nat.le_of_succ_le_succ hm) fun i hi => hnone (i + 1) (Nat.succ_lt_succ hi)

end Units

end Semantics
