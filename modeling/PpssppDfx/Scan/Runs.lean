import Mathlib.Data.List.Chain
import Mathlib.Data.List.Pairwise
import Mathlib.Logic.Relation
import PpssppDfx.Scan.Narrow

/-!
# Narrowing over merged reads

Candidates that lie close together are read in one run. A run whose read raises is read
again candidate by candidate; a run whose read is short is not, and the candidates behind
its end are dropped without being looked at.

## Main definitions

* `Scan.narrowCandidates` — `_narrow_candidates` over a reader
* `Scan.ownCandidates` — the candidates that reads of their own would keep
* `Scan.EvenReads` — merged reads and reads of their own reach the same candidates

## Main results

* `covers_mergeRuns`, `apart_mergeRuns` — where the members of the runs lie
* `merged_mergeRuns` — what the runs of an ascending address list are
* `narrowCandidates_answered` — the narrow calls of the machine keep these candidates
* `narrowCandidates_eq_iff` — when the merged reads keep what reads of their own would
-/

set_option autoImplicit false

namespace Scan

open Semantics Python Relation

/-! ## Where the members lie -/

section Members

variable {addresses rest members : List ℕ} {size start last : ℕ} {run : Run}

/-- The values at the members of a run lie inside its span. -/
structure Run.Covers (run : Run) (size : ℕ) : Prop where
  start_le : ∀ a ∈ run.members, run.start ≤ a
  fits : ∀ a ∈ run.members, (a : ℤ) + size ≤ run.start + run.span

/-- Every member of the first run lies before every member of the second. -/
def Run.Before (run later : Run) : Prop := ∀ a ∈ run.members, ∀ b ∈ later.members, a < b

/-- A run that is under way covers its members once it ends at the last of them. -/
theorem covers_mergeFrom (hrest : (last :: rest).Pairwise (· ≤ ·))
    (hstart : ∀ a ∈ members, start ≤ a) (hlast : ∀ a ∈ members, a ≤ last) (hle : start ≤ last) :
    ∀ run ∈ mergeFrom size start last members rest, run.Covers size := by
  have hhere : (⟨start, (last : ℤ) - start + size, members⟩ : Run).Covers size :=
    ⟨hstart, fun a ha => by
      have := hlast a ha
      simp only
      omega⟩
  induction rest generalizing start last members with
  | nil =>
    intro run hrun
    obtain rfl := List.mem_singleton.mp hrun
    exact hhere
  | cons addr rest ih =>
    obtain ⟨hbefore, hafter⟩ := List.pairwise_cons.mp hrest
    have hnext : last ≤ addr := hbefore addr List.mem_cons_self
    rw [mergeFrom]
    split
    -- the address joins the run, or the run is closed and the address begins the next
    · have hmore : ∀ a ∈ members ++ [addr], start ≤ a ∧ a ≤ addr := fun a ha => by
        rcases List.mem_append.mp ha with ha | ha
        · exact ⟨hstart a ha, (hlast a ha).trans hnext⟩
        · obtain rfl := List.mem_singleton.mp ha
          exact ⟨hle.trans hnext, Nat.le_refl _⟩
      exact ih hafter (fun a ha => (hmore a ha).1) (fun a ha => (hmore a ha).2)
        (hle.trans hnext) ⟨fun a ha => (hmore a ha).1, fun a ha => by
          have := (hmore a ha).2
          simp only
          omega⟩
    · intro run hrun
      rcases List.mem_cons.mp hrun with rfl | hrun
      · exact hhere
      · have hone : ∀ a ∈ [addr], a = addr := fun a ha => List.mem_singleton.mp ha
        refine ih hafter (fun a ha => (hone a ha).ge) (fun a ha => (hone a ha).le)
          (Nat.le_refl _) ⟨fun a ha => (hone a ha).ge, fun a ha => ?_⟩ run hrun
        rw [hone a ha]
        simp only
        omega

/-- The runs follow one another, with no member in common. -/
theorem apart_mergeFrom (hrest : (last :: rest).Pairwise (· ≤ ·))
    (hlast : ∀ a ∈ members, a ≤ last) :
    (mergeFrom size start last members rest).Pairwise Run.Before := by
  induction rest generalizing start last members with
  | nil => exact List.pairwise_singleton _ _
  | cons addr rest ih =>
    obtain ⟨hbefore, hafter⟩ := List.pairwise_cons.mp hrest
    have hnext : last ≤ addr := hbefore addr List.mem_cons_self
    rw [mergeFrom]
    split
    · refine ih hafter fun a ha => ?_
      rcases List.mem_append.mp ha with ha | ha
      · exact (hlast a ha).trans hnext
      · exact (List.mem_singleton.mp ha).le
    · rename_i hgap
      refine List.pairwise_cons.mpr ⟨fun later hlater a ha b hb => ?_,
        ih hafter fun a ha => (List.mem_singleton.mp ha).le⟩
      -- every later member is one of the addresses that are left
      have hmem : b ∈ addr :: rest := by
        rw [← List.singleton_append, ← flatMap_mergeFrom size addr addr [addr] rest]
        exact List.mem_flatMap.mpr ⟨later, hlater, hb⟩
      have hge : addr ≤ b := by
        rcases List.mem_cons.mp hmem with rfl | hb
        · exact Nat.le_refl _
        · exact (List.pairwise_cons.mp hafter).1 b hb
      have := hlast a ha
      omega

theorem covers_mergeRuns (hasc : addresses.Pairwise (· ≤ ·)) :
    ∀ run ∈ mergeRuns addresses size, run.Covers size := by
  cases addresses with
  | nil => exact fun run hrun => nomatch hrun
  | cons addr rest =>
    exact covers_mergeFrom hasc (fun a ha => (List.mem_singleton.mp ha).ge)
      (fun a ha => (List.mem_singleton.mp ha).le) (Nat.le_refl _)

theorem apart_mergeRuns (hasc : addresses.Pairwise (· ≤ ·)) :
    (mergeRuns addresses size).Pairwise Run.Before := by
  cases addresses with
  | nil => exact List.Pairwise.nil
  | cons addr rest => exact apart_mergeFrom hasc fun a ha => (List.mem_singleton.mp ha).le

/-- A run starts at its first member and ends behind its last, and its neighbours are near. -/
structure Run.Spans (run : Run) (size : ℕ) : Prop where
  first : run.members.head? = some run.start
  last : ∃ last, run.members.getLast? = some last ∧ run.start + run.span = last + size
  near : run.members.IsChain fun a b => a ≤ b ∧ b ≤ a + size

/-- The first member of the second run is not near the last of the first. -/
def Run.FarBefore (size : ℕ) (run later : Run) : Prop :=
  ∀ a ∈ run.members.getLast?, ∀ b ∈ later.members.head?, a + size < b

/-- What the runs of an address list are. -/
structure Merged (addresses : List ℕ) (size : ℕ) (runs : List Run) : Prop where
  members : runs.flatMap (·.members) = addresses
  covers : ∀ run ∈ runs, run.Covers size
  spans : ∀ run ∈ runs, run.Spans size
  far : runs.IsChain (Run.FarBefore size)

/-- The run that is under way comes first, with its members at the front. -/
theorem head_mergeFrom (size start last : ℕ) (members rest : List ℕ) :
    ∃ run runs, mergeFrom size start last members rest = run :: runs ∧
      members <+: run.members := by
  induction rest generalizing last members with
  | nil => exact ⟨_, [], rfl, List.prefix_rfl⟩
  | cons addr rest ih =>
    rw [mergeFrom]
    split
    · obtain ⟨run, runs, hsplit, hprefix⟩ := ih addr (members ++ [addr])
      exact ⟨run, runs, hsplit, (List.prefix_append members [addr]).trans hprefix⟩
    · exact ⟨_, _, rfl, List.prefix_rfl⟩

/-- A run that is under way keeps its first and its last member, and they stay near. -/
theorem spans_mergeFrom (hrest : (last :: rest).Pairwise (· ≤ ·))
    (hfirst : members.head? = some start) (hlast : members.getLast? = some last)
    (hnear : members.IsChain fun a b => a ≤ b ∧ b ≤ a + size) :
    ∀ run ∈ mergeFrom size start last members rest, run.Spans size := by
  have hhere : (⟨start, (last : ℤ) - start + size, members⟩ : Run).Spans size :=
    ⟨hfirst, ⟨last, hlast, by simp only; omega⟩, hnear⟩
  induction rest generalizing start last members with
  | nil =>
    intro run hrun
    obtain rfl := List.mem_singleton.mp hrun
    exact hhere
  | cons addr rest ih =>
    obtain ⟨hbefore, hafter⟩ := List.pairwise_cons.mp hrest
    have hnext : last ≤ addr := hbefore addr List.mem_cons_self
    rw [mergeFrom]
    split
    · rename_i hgap
      have hfirst' : (members ++ [addr]).head? = some start := by
        rw [List.head?_append, hfirst, Option.some_or]
      have hnear' : (members ++ [addr]).IsChain fun a b => a ≤ b ∧ b ≤ a + size := by
        refine List.isChain_append.mpr ⟨hnear, List.isChain_singleton _, fun a ha b hb => ?_⟩
        obtain rfl := Option.some.inj (hlast.symm.trans ha)
        obtain rfl := Option.some.inj hb
        exact ⟨hnext, by omega⟩
      exact ih hafter hfirst' List.getLast?_concat hnear'
        ⟨hfirst', ⟨addr, List.getLast?_concat, by simp only; omega⟩, hnear'⟩
    · intro run hrun
      rcases List.mem_cons.mp hrun with rfl | hrun
      · exact hhere
      · exact ih hafter rfl rfl (List.isChain_singleton _)
          ⟨rfl, ⟨addr, rfl, by simp only; omega⟩, List.isChain_singleton _⟩ run hrun

/-- A run is closed only when the next address is far from its last member. -/
theorem far_mergeFrom (hlast : members.getLast? = some last) :
    (mergeFrom size start last members rest).IsChain (Run.FarBefore size) := by
  induction rest generalizing start last members with
  | nil => exact List.isChain_singleton _
  | cons addr rest ih =>
    rw [mergeFrom]
    split
    · exact ih List.getLast?_concat
    · rename_i hgap
      have hchain : (mergeFrom size addr addr [addr] rest).IsChain (Run.FarBefore size) := ih rfl
      -- the next run begins with the address that closed this one
      obtain ⟨run, runs, hsplit, hprefix⟩ := head_mergeFrom size addr addr [addr] rest
      rw [hsplit] at hchain ⊢
      refine List.isChain_cons_cons.mpr ⟨fun a ha b hb => ?_, hchain⟩
      obtain rfl := Option.some.inj (hlast.symm.trans ha)
      obtain ⟨more, hmore⟩ := hprefix
      rw [← hmore] at hb
      obtain rfl := Option.some.inj hb
      omega

/-- The runs of an ascending address list, with duplicates or without. -/
theorem merged_mergeRuns (hasc : addresses.Pairwise (· ≤ ·)) :
    Merged addresses size (mergeRuns addresses size) where
  members := members_mergeRuns addresses size
  covers := covers_mergeRuns hasc
  spans := by
    cases addresses with
    | nil => exact fun run hrun => absurd hrun List.not_mem_nil
    | cons addr rest => exact spans_mergeFrom hasc rfl rfl (List.isChain_singleton _)
  far := by
    cases addresses with
    | nil => exact List.isChain_nil
    | cons addr rest => exact far_mergeFrom rfl

/-- A duplicate, a neighbour at the distance of the size, and one behind it. -/
theorem merged_mergeRuns_example :
    Merged [0x08804000, 0x08804000, 0x08804002, 0x08804005] 2
      (mergeRuns [0x08804000, 0x08804000, 0x08804002, 0x08804005] 2) :=
  merged_mergeRuns (by decide)

/-- What the runs keep of their members is decided in the run of each. -/
theorem mem_flatMap_iff {runs : List Run} {keep : Run → List ℕ} {a : ℕ}
    (hapart : runs.Pairwise Run.Before) (hsub : ∀ run ∈ runs, keep run ⊆ run.members)
    (hrun : run ∈ runs) (ha : a ∈ run.members) : a ∈ runs.flatMap keep ↔ a ∈ keep run := by
  -- two runs that share a member are the same
  have hone : ∀ r ∈ runs, ∀ s ∈ runs, r = s ∨ ∀ b ∈ r.members, b ∉ s.members := by
    have hself : ∀ r ∈ runs, r = r ∨ ∀ b ∈ r.members, b ∉ r.members := fun _ _ => Or.inl rfl
    have hlater : runs.Pairwise fun r s => r = s ∨ ∀ b ∈ r.members, b ∉ s.members :=
      hapart.imp fun hbefore => Or.inr fun b hr hs => Nat.lt_irrefl b (hbefore b hr b hs)
    have hearlier : runs.Pairwise (flip fun r s => r = s ∨ ∀ b ∈ r.members, b ∉ s.members) :=
      hapart.imp fun hbefore => Or.inr fun b hs hr => Nat.lt_irrefl b (hbefore b hr b hs)
    exact fun r hr s hs => hlater.forall_of_forall_of_flip hself hearlier hr hs
  constructor
  · intro hmem
    obtain ⟨other, hother, hkept⟩ := List.mem_flatMap.mp hmem
    rcases hone other hother run hrun with rfl | hnot
    · exact hkept
    · exact absurd ha (hnot a (hsub other hother hkept))
  · exact fun hkept => List.mem_flatMap.mpr ⟨run, hrun, hkept⟩

end Members

/-! ## The candidates that are kept -/

/-- A read of a range: `none` if it raises. -/
abbrev Fetch := ℕ → ℕ → Option Bytes

/-- The reader yields what it reads of the memory, in full or up to a point, or raises. -/
def Prefixes (fetch : Fetch) (mem : ℕ → UInt8) : Prop :=
  ∀ a n, fetch a n = none ∨ ∃ m ≤ n, fetch a n = some (slice mem a m)

section Candidates

variable (fetch : Fetch) (width : Width) (op : Op) (value : ℤ)

/-- The bytes are those of a whole value that satisfies the comparison. -/
def keptValue (raw : Bytes) : Bool :=
  raw.length = width.size && cmp (littleEndian raw) op value

/-- The candidate is kept by a read of its own. -/
def keptOwn (addr : ℕ) : Bool := (fetch addr width.size).any (keptValue width op value)

/-- What is kept of one run. -/
def narrowRun (run : Run) : List ℕ :=
  match fetch run.start run.span.toNat with
  | none => run.members.filter fun addr => keptOwn fetch width op value addr
  | some blob =>
    run.members.filter fun addr =>
      keptValue width op value ((blob.drop (addr - run.start)).take width.size)

/-- `_narrow_candidates`. -/
def narrowCandidates (addresses : List ℕ) : List ℕ :=
  (mergeRuns addresses width.size).flatMap (narrowRun fetch width op value)

/-- The candidates that reads of their own would keep. -/
def ownCandidates (addresses : List ℕ) : List ℕ :=
  addresses.filter fun addr => keptOwn fetch width op value addr

/-- In a run whose merged read does not raise, that read reaches the candidates that satisfy
the comparison exactly if their own reads yield all their bytes. -/
def EvenReads (mem : ℕ → UInt8) (addresses : List ℕ) : Prop :=
  ∀ run ∈ mergeRuns addresses width.size, ∀ blob, fetch run.start run.span.toNat = some blob →
    ∀ a ∈ run.members, cmp (littleEndian (slice mem a width.size)) op value = true →
      (a + width.size ≤ run.start + blob.length ↔
        fetch a width.size = some (slice mem a width.size))

end Candidates

section Narrow

variable {fetch : Fetch} {width : Width} {op : Op} {value : ℤ} {mem : ℕ → UInt8}
  {addresses : List ℕ} {run : Run} {a m : ℕ}

theorem narrowRun_subset (run : Run) : narrowRun fetch width op value run ⊆ run.members := by
  unfold narrowRun
  split <;> exact List.filter_sublist.subset

theorem keptValue_slice : keptValue width op value (slice mem a m) = true ↔
    m = width.size ∧ cmp (littleEndian (slice mem a width.size)) op value = true := by
  rw [keptValue, length_slice, Bool.and_eq_true, decide_eq_true_iff]
  exact and_congr_right fun hm => by rw [hm]

/-- A read of its own keeps a candidate if it yields all the bytes and they satisfy the
comparison. -/
theorem keptOwn_iff (hfetch : Prefixes fetch mem) : keptOwn fetch width op value a = true ↔
    fetch a width.size = some (slice mem a width.size) ∧
      cmp (littleEndian (slice mem a width.size)) op value = true := by
  rcases hfetch a width.size with hraises | ⟨m, hm, hreads⟩
  · simp [keptOwn, hraises]
  · rw [keptOwn, hreads, Option.any_some, keptValue_slice, Option.some.injEq]
    refine and_congr_left fun _ => ⟨fun hm => by rw [hm], fun hsame => ?_⟩
    have hlength := congrArg List.length hsame
    rwa [length_slice, length_slice] at hlength

/-- A merged read keeps a candidate if it reaches behind its bytes. -/
theorem keptValue_cut (ha : run.start ≤ a) :
    keptValue width op value (((slice mem run.start m).drop (a - run.start)).take width.size) =
        true ↔
      a + width.size ≤ run.start + m ∧
        cmp (littleEndian (slice mem a width.size)) op value = true := by
  have hpos := width.size_pos
  rw [drop_slice, Nat.add_sub_cancel' ha]
  by_cases hfits : a + width.size ≤ run.start + m
  · rw [take_slice (by omega), keptValue_slice]
    exact and_congr_left fun _ => iff_of_true rfl hfits
  · rw [List.take_of_length_le (by rw [length_slice]; omega), keptValue_slice]
    exact and_congr_left fun _ => iff_of_false (by omega) hfits

/-- The merged reads keep the candidates that reads of their own would keep if and only if
they reach the same ones. -/
theorem narrowCandidates_eq_iff (hasc : addresses.Pairwise (· ≤ ·))
    (hfetch : Prefixes fetch mem) :
    narrowCandidates fetch width op value addresses =
        ownCandidates fetch width op value addresses ↔
      EvenReads fetch width op value mem addresses := by
  have hown : ownCandidates fetch width op value addresses =
      (mergeRuns addresses width.size).flatMap fun run =>
        run.members.filter fun addr => keptOwn fetch width op value addr := by
    rw [ownCandidates, ← List.filter_flatMap, members_mergeRuns]
  have hcovers : ∀ run ∈ mergeRuns addresses width.size, run.Covers width.size :=
    covers_mergeRuns hasc
  rw [narrowCandidates, hown]
  constructor
  · intro hsame run hrun blob hblob a ha hvalue
    have hkept : a ∈ narrowRun fetch width op value run ↔
        a ∈ run.members.filter fun addr => keptOwn fetch width op value addr := by
      rw [← mem_flatMap_iff (apart_mergeRuns hasc) (fun r _ => narrowRun_subset r) hrun ha, hsame]
      exact mem_flatMap_iff (apart_mergeRuns hasc) (fun r _ => List.filter_sublist.subset) hrun ha
    obtain ⟨m, -, hreads⟩ := (hfetch run.start run.span.toNat).resolve_left (by simp [hblob])
    obtain rfl := Option.some.inj (hblob.symm.trans hreads)
    rw [narrowRun, hblob, List.mem_filter, List.mem_filter, and_iff_right ha, and_iff_right ha,
      keptValue_cut ((hcovers run hrun).start_le a ha), keptOwn_iff hfetch, and_iff_left hvalue,
      and_iff_left hvalue] at hkept
    rwa [length_slice]
  · intro heven
    refine List.flatMap_congr fun run hrun => ?_
    rw [narrowRun]
    -- a run whose read raises is read candidate by candidate
    rcases hblob : fetch run.start run.span.toNat with _ | blob
    · rfl
    obtain ⟨m, -, hreads⟩ := (hfetch run.start run.span.toNat).resolve_left (by simp [hblob])
    obtain rfl := Option.some.inj (hblob.symm.trans hreads)
    refine List.filter_congr fun a ha => ?_
    rw [Bool.eq_iff_iff, keptValue_cut ((hcovers run hrun).start_le a ha), keptOwn_iff hfetch]
    refine and_congr_left fun hvalue => ?_
    rw [← heven run hrun _ hblob a ha hvalue, length_slice]

end Narrow

/-- Every byte of the memory is one. -/
def onesMemory : ℕ → UInt8 := fun _ => 1

/-- A reader that yields no more than so many bytes at once. -/
def fetchAtMost (most : ℕ) : Fetch := fun a n => some (slice onesMemory a (min n most))

theorem prefixes_fetchAtMost (most : ℕ) : Prefixes (fetchAtMost most) onesMemory :=
  fun _ _ => Or.inr ⟨_, Nat.min_le_left _ _, rfl⟩

theorem narrowCandidates_whole :
    narrowCandidates (fetchAtMost 4) .u16 .eq 0x101 [0x08804000, 0x08804002] =
      ownCandidates (fetchAtMost 4) .u16 .eq 0x101 [0x08804000, 0x08804002] :=
  (narrowCandidates_eq_iff (by decide) (prefixes_fetchAtMost 4)).mpr (by
    intro run hrun
    obtain rfl := List.mem_singleton.mp hrun
    rintro blob ⟨⟩ a ha -
    rcases List.mem_cons.mp ha with rfl | ha
    · decide
    · obtain rfl := List.mem_singleton.mp ha
      decide)

/-- The second candidate lies behind the end of the merged read, and is dropped. -/
theorem narrowCandidates_short :
    Prefixes (fetchAtMost 2) onesMemory ∧
      narrowCandidates (fetchAtMost 2) .u16 .eq 0x101 [0x08804000, 0x08804002] = [0x08804000] ∧
      ownCandidates (fetchAtMost 2) .u16 .eq 0x101 [0x08804000, 0x08804002] =
        [0x08804000, 0x08804002] :=
  ⟨prefixes_fetchAtMost 2, by decide, by decide⟩

/-! ## The calls of the machine -/

section Calls

variable {fetch : Fetch} {c : Narrow} {width : Width} {runs : List Run}

/-- The read that a narrow call has under way. -/
def Narrow.asks (c : Narrow) : Option (ℕ × ℕ) :=
  match c.phase with
  | .entering => none
  | .reading [] _ => none
  | .reading (run :: _) _ => some (run.start, run.span.toNat)
  | .single addr _ _ _ => some (addr, c.size)

/-- The reader answers the read that is under way. -/
def Narrow.Answered (fetch : Fetch) (c c' : Narrow) : Prop :=
  ∃ a n phase, c.asks = some (a, n) ∧ c.readEnds (fetch a n) = some phase ∧
    c' = { c with phase := phase }

/-- The candidates of a run that could not be read as a whole are read one by one. -/
theorem singly_answered (hsize : c.size = width.size) (addrs out : List ℕ) :
    ReflTransGen (Narrow.Answered fetch) { c with phase := singly out runs addrs }
      { c with
        phase := .reading runs
          (out ++ addrs.filter fun addr => keptOwn fetch width c.op c.value addr) } := by
  induction addrs generalizing out with
  | nil =>
    rw [List.filter_nil, List.append_nil]
    exact .refl
  | cons addr addrs ih =>
    rw [List.filter_cons, singly]
    by_cases hkept : keptOwn fetch width c.op c.value addr = true
    · obtain ⟨raw, hraw, hvalue⟩ := (Option.any_eq_true _ _).mp hkept
      have hboth : raw.length = c.size ∧ c.keeps raw 0 = true := by
        rw [keptValue, Bool.and_eq_true, decide_eq_true_iff, ← hsize] at hvalue
        rw [Narrow.keeps, List.drop_zero, List.take_of_length_le hvalue.1.le]
        simpa using hvalue
      rw [if_pos hkept, List.append_cons out addr]
      refine .head ⟨addr, c.size, singly (out ++ [addr]) runs addrs, rfl, ?_, rfl⟩ (ih _)
      simp only [Narrow.readEnds, hsize, hraw]
      rw [if_pos (hsize ▸ hboth)]
    · rw [if_neg hkept]
      refine .head ⟨addr, c.size, singly out runs addrs, rfl, ?_, rfl⟩ (ih _)
      rcases hraw : fetch addr c.size with _ | raw
      · rfl
      · simp only [Narrow.readEnds]
        rw [if_neg]
        rintro ⟨hlength, hvalue⟩
        rw [Narrow.keeps, List.drop_zero, List.take_of_length_le hlength.le] at hvalue
        refine hkept ?_
        rw [keptOwn, ← hsize, hraw, Option.any_some, keptValue, ← hsize]
        exact hvalue

/-- Driven by the reader, a narrow call arrives at the candidates that are kept. -/
theorem narrowCandidates_answered (hsize : c.size = width.size) :
    ReflTransGen (Narrow.Answered fetch)
      { c with phase := .reading (mergeRuns c.read c.size) [] }
      { c with phase := .reading [] (narrowCandidates fetch width c.op c.value c.read) } := by
  have hruns : ∀ (runs : List Run) (out : List ℕ),
      ReflTransGen (Narrow.Answered fetch) { c with phase := .reading runs out }
        { c with
          phase := .reading [] (out ++ runs.flatMap (narrowRun fetch width c.op c.value)) } := by
    intro runs
    induction runs with
    | nil =>
      intro out
      rw [List.flatMap_nil, List.append_nil]
    | cons run runs ih =>
      intro out
      rw [List.flatMap_cons, ← List.append_assoc]
      rcases hblob : fetch run.start run.span.toNat with _ | blob
      · have hrun : narrowRun fetch width c.op c.value run =
            run.members.filter fun addr => keptOwn fetch width c.op c.value addr := by
          rw [narrowRun, hblob]
        rw [hrun]
        refine .head ⟨_, _, singly out runs run.members, rfl, ?_, rfl⟩
          ((singly_answered hsize run.members out).trans (ih _))
        rw [hblob]
        rfl
      · have hrun : narrowRun fetch width c.op c.value run =
            run.members.filter fun addr => c.keeps blob (addr - run.start) := by
          rw [narrowRun, hblob]
          simp only [keptValue, Narrow.keeps, hsize]
        rw [hrun]
        refine .head ⟨_, _, .reading runs _, rfl, ?_, rfl⟩ (ih _)
        rw [hblob]
        rfl
  have hall := hruns (mergeRuns c.read c.size) []
  rw [List.nil_append] at hall
  rw [narrowCandidates, ← hsize]
  exact hall

end Calls

end Scan
