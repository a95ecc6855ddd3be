import PpssppDfx.Scan.Value

/-!
# The segments of the value scan

A segment is searched on its own, so a value is found only if it lies inside one segment.
The first phase finds what one pass over the flat range finds exactly if none of the hits
that count straddles two segments.

## Main definitions

* `Scan.plainHits` — the hits of one block, offset by offset
* `Scan.ValueScan.flatHits` — the hits of one pass over the flat range
* `Scan.ValueScan.Straddles` — a value that lies in two segments

## Main results

* `scanBlockHits_eq` — the hits of one block
* `scanBlockHits_eq_plainHits` — the fast paths agree with the plain loop
* `initialScan_eq_flat_iff` — when the first phase agrees with the flat pass
-/

set_option autoImplicit false

namespace Scan

open Semantics Python

/-! ## Blocks -/

section Blocks

variable {blob target : Bytes} {width : Width} {op : Op} {value limit : ℤ}

/-- A whole value fits into the block at the offset and satisfies the comparison. -/
def BlockHit (blob : Bytes) (width : Width) (op : Op) (value : ℤ) (off : ℕ) : Prop :=
  off + width.size ≤ blob.length ∧ cmp (unpackFrom width.size blob off) op value = true

instance (blob : Bytes) (width : Width) (op : Op) (value : ℤ) :
    DecidablePred (BlockHit blob width op value) :=
  fun _ => inferInstanceAs (Decidable (_ ∧ _))

/-- The search stops at the limit, and has then found the first occurrences. -/
theorem findHits_eq (hne : target ≠ []) {fuel start : ℕ} {out : List ℕ}
    (hfuel : blob.length < fuel + start) (hout : (out.length : ℤ) ≤ limit) :
    findHits target blob limit fuel start out =
      (out ++ indices (OccursAt target blob) start blob.length).take limit.toNat := by
  have hshort : out.take limit.toNat = out := List.take_of_length_le (by omega)
  induction fuel generalizing start out with
  | zero =>
    rw [indices_eq_nil fun i hlo hhi => by omega, List.append_nil, hshort]
    rfl
  | succ fuel ih =>
    rw [findHits]
    -- the limit is tested before each search, so a full list is returned as it is
    by_cases hroom : (out.length : ℤ) < limit
    · rw [if_pos hroom]
      split
      · rename_i hnone
        rw [indices_eq_nil fun i hi _ => findFrom_eq_none hnone hne i hi, List.append_nil, hshort]
      · rename_i idx hsome
        obtain ⟨hle, hoccurs, hfirst⟩ := findFrom_eq_some hsome
        have hinside : idx < blob.length := by
          have hfits := hoccurs.add_length_le hne
          have hpos : 0 < target.length := List.length_pos_of_ne_nil hne
          omega
        have hlonger : (out ++ [idx]).length = out.length + 1 := by simp
        have hrest : blob.length < fuel + (idx + 1) := by omega
        rw [indices_cons hle hinside hfirst hoccurs,
          List.append_cons out idx (indices _ _ _)]
        exact ih hrest (by omega) (List.take_of_length_le (by omega))
    · have hfull : limit.toNat = out.length := by omega
      rw [if_neg hroom, List.take_append_of_le_length (by omega), hshort]

theorem unpackHits_eq {offs out : List ℕ} (hout : (out.length : ℤ) < limit) :
    unpackHits blob width op value limit offs out =
      (out ++ offs.filter fun off => cmp (unpackFrom width.size blob off) op value).take
        limit.toNat := by
  have hshort : out.take limit.toNat = out := List.take_of_length_le (by omega)
  induction offs generalizing out with
  | nil => simp [unpackHits, hshort]
  | cons off offs ih =>
    rw [unpackHits]
    by_cases hhit : cmp (unpackFrom width.size blob off) op value = true
    · have hlonger : (out ++ [off]).length = out.length + 1 := by simp
      rw [if_pos hhit, List.filter_cons, if_pos hhit,
        List.append_cons out off (List.filter _ _)]
      by_cases hfull : limit ≤ ((out ++ [off]).length : ℤ)
      · rw [if_pos hfull, List.take_append_of_le_length (by omega),
          List.take_of_length_le (by omega)]
      · rw [if_neg hfull]
        exact ih (by omega) (List.take_of_length_le (by omega))
    · rw [if_neg hhit, List.filter_cons, if_neg hhit]
      exact ih hout hshort

/-- The bytes of a value stand exactly where the value is read. -/
theorem occursAt_toBytes_iff {off : ℕ} (htarget : toBytes width.size value = some target) :
    OccursAt target blob off ↔ BlockHit blob width .eq value off := by
  obtain ⟨hlength, hvalue⟩ := toBytes_eq_some_iff.mp htarget
  have hpos := width.size_pos
  have hne : target ≠ [] := by
    rintro rfl
    rw [← hlength] at hpos
    exact absurd hpos (Nat.lt_irrefl 0)
  constructor
  · intro hoccurs
    have hfits := hoccurs.add_length_le hne
    refine ⟨hlength ▸ hfits, ?_⟩
    rw [unpackFrom, ← hlength, ← List.prefix_iff_eq_take.mp hoccurs, cmp, hvalue]
    exact decide_eq_true rfl
  · rintro ⟨hfits, hhit⟩
    have hread : (littleEndian ((blob.drop off).take width.size) : ℤ) = value :=
      of_decide_eq_true hhit
    have hslice : ((blob.drop off).take width.size).length = width.size := by
      rw [List.length_take, List.length_drop]
      omega
    have hsame : toBytes width.size value = some ((blob.drop off).take width.size) :=
      toBytes_eq_some_iff.mpr ⟨hslice, hread⟩
    obtain rfl : target = (blob.drop off).take width.size :=
      Option.some.inj (htarget.symm.trans hsame)
    exact List.take_prefix _ _

/-- A value that does not fit into the width is read nowhere. -/
theorem not_blockHit_of_toBytes {off : ℕ} (hnone : toBytes width.size value = none) :
    ¬ BlockHit blob width .eq value off := by
  rintro ⟨hfits, hhit⟩
  have hread : (littleEndian ((blob.drop off).take width.size) : ℤ) = value :=
    of_decide_eq_true hhit
  have hslice : ((blob.drop off).take width.size).length = width.size := by
    rw [List.length_take, List.length_drop]
    omega
  rw [toBytes_eq_some_iff.mpr ⟨hslice, hread⟩] at hnone
  exact Option.some_ne_none _ hnone

/-- The offsets at which a whole value fits, less those at which it does not satisfy the
comparison. -/
theorem filter_range_eq (hsize : width.size ≤ blob.length) :
    ((List.range (blob.length - width.size + 1)).filter fun off =>
      cmp (unpackFrom width.size blob off) op value) =
        indices (BlockHit blob width op value) 0 blob.length := by
  have hpos := width.size_pos
  have hafter : indices (BlockHit blob width op value) (blob.length - width.size + 1)
      blob.length = [] := indices_eq_nil fun off hlo _ hhit => by
    have := hhit.1
    omega
  rw [← indices_append (Nat.zero_le (blob.length - width.size + 1)) (by omega), hafter,
    List.append_nil, indices, List.range_eq_range', Nat.sub_zero]
  refine List.filter_congr fun off hoff => ?_
  have hfits : off + width.size ≤ blob.length := by
    have := (List.mem_range'_1.mp hoff).2
    omega
  rw [Bool.eq_iff_iff, decide_eq_true_iff]
  exact ⟨fun hhit => ⟨hfits, hhit⟩, fun hhit => hhit.2⟩

/-- The hits of a block are the offsets at which a whole value satisfies the comparison. -/
theorem scanBlockHits_eq (blob : Bytes) (width : Width) (op : Op) (value limit : ℤ) :
    scanBlockHits blob width op value limit =
      (indices (BlockHit blob width op value) 0 blob.length).take limit.toNat := by
  unfold scanBlockHits
  split_ifs with hnone
  · rcases hnone with hlimit | hsize
    · rw [Int.toNat_of_nonpos hlimit, List.take_zero]
    · rw [indices_eq_nil fun off _ _ hhit => by
        have := hhit.1
        omega, List.take_nil]
  · have hroom : ((List.length ([] : List ℕ) : ℕ) : ℤ) < limit := by
      rw [List.length_nil]
      omega
    -- equality is searched as bytes, the other comparisons read every offset
    cases op with
    | eq =>
      dsimp only
      cases htarget : toBytes width.size value with
      | none =>
        rw [indices_eq_nil fun off _ _ => not_blockHit_of_toBytes htarget, List.take_nil]
      | some target =>
        have hne : target ≠ [] := by
          rintro rfl
          have hlength := (toBytes_eq_some_iff.mp htarget).1
          have hpos := width.size_pos
          rw [← hlength] at hpos
          exact absurd hpos (Nat.lt_irrefl 0)
        dsimp only
        rw [findHits_eq hne (by omega) (Int.le_of_lt hroom), List.nil_append,
          indices_congr fun off _ _ => occursAt_toBytes_iff htarget]
    | ne | lt | gt =>
      dsimp only
      rw [unpackHits_eq hroom, List.nil_append, filter_range_eq (by omega)]

/-- The plain loop: the value at every offset at which a whole one fits is read and compared,
and the hits are cut at the limit. -/
def plainHits (blob : Bytes) (width : Width) (op : Op) (value limit : ℤ) : List ℕ :=
  ((List.range (blob.length + 1 - width.size)).filter fun off =>
    cmp (unpackFrom width.size blob off) op value).take limit.toNat

/-- The fast paths of the block scan find what the plain loop finds. -/
theorem scanBlockHits_eq_plainHits (blob : Bytes) (width : Width) (op : Op) (value limit : ℤ) :
    scanBlockHits blob width op value limit = plainHits blob width op value limit := by
  rw [scanBlockHits_eq, plainHits]
  by_cases hsize : width.size ≤ blob.length
  · have hrange : blob.length + 1 - width.size = blob.length - width.size + 1 := by omega
    rw [hrange, filter_range_eq hsize]
  · have hnone : indices (BlockHit blob width op value) 0 blob.length = [] :=
      indices_eq_nil fun off _ _ hhit => by
        have := hhit.1
        omega
    have hempty : blob.length + 1 - width.size = 0 := by omega
    rw [hnone, hempty]
    rfl

/-- Overlapping hits count, and a target that does not fit is found nowhere. -/
example : plainHits [1, 1, 1] .u16 .eq 0x101 9 = [0, 1] ∧
    plainHits [255, 255] .u8 .eq (-1) 9 = [] := by decide

end Blocks

/-! ## One pass -/

namespace ValueScan

variable (v : ValueScan) (mem : ℕ → UInt8)

/-- A whole value fits into the range at `a` and satisfies the comparison. -/
def Hit (a : ℕ) : Prop :=
  a + v.width.size ≤ v.start + v.total ∧
    cmp (littleEndian (slice mem a v.width.size)) v.op v.value = true

instance : DecidablePred (v.Hit mem) := fun _ => inferInstanceAs (Decidable (_ ∧ _))

/-- The first and the last byte of the value lie in different segments. -/
def Straddles (a : ℕ) : Prop :=
  (a - v.start) / maxSingleReadBytes < (a + v.width.size - 1 - v.start) / maxSingleReadBytes

instance : DecidablePred v.Straddles := fun _ => inferInstanceAs (Decidable (_ < _))

/-- The hits of one pass over the flat range. -/
def flatHits : List ℕ := indices (v.Hit mem) v.start (v.start + v.total)

/-- The hits, up to an address, that lie inside one segment. -/
def insideHits (hi : ℕ) : List ℕ :=
  indices (fun a => v.Hit mem a ∧ ¬ v.Straddles a) v.start hi

theorem insideHits_append {mid hi : ℕ} (hlo : v.start ≤ mid) (hhi : mid ≤ hi) :
    v.insideHits mem mid ++ indices (fun a => v.Hit mem a ∧ ¬ v.Straddles a) mid hi =
      v.insideHits mem hi :=
  indices_append hlo hhi

theorem insideHits_eq_filter :
    v.insideHits mem (v.start + v.total) =
      (v.flatHits mem).filter fun a => ¬ v.Straddles a := by
  rw [insideHits, flatHits, indices, indices, List.filter_filter]
  refine List.filter_congr fun a _ => ?_
  rw [Bool.eq_iff_iff]
  simp [and_comm]

end ValueScan

/-! ## Segments -/

section Segments

variable {v : ValueScan} {mem : ℕ → UInt8} {k : ℕ}

/-- Where a segment begins. -/
def ValueScan.segStart (v : ValueScan) (k : ℕ) : ℕ := v.start + k * maxSingleReadBytes

/-- Where a segment ends. -/
def ValueScan.segEnd (v : ValueScan) (k : ℕ) : ℕ := min (v.segStart (k + 1)) (v.start + v.total)

/-- How many bytes a segment has. -/
def ValueScan.segSize (v : ValueScan) (k : ℕ) : ℕ :=
  min maxSingleReadBytes (v.total - k * maxSingleReadBytes)

theorem segStart_add_segSize (h : k * maxSingleReadBytes < v.total) :
    v.segStart k + v.segSize k = v.segEnd k := by
  unfold ValueScan.segEnd ValueScan.segStart ValueScan.segSize
  rw [Nat.succ_mul]
  omega

theorem blockHit_slice {base n off : ℕ} {width : Width} {op : Op} {value : ℤ} :
    BlockHit (slice mem base n) width op value off ↔
      off + width.size ≤ n ∧ cmp (littleEndian (slice mem (base + off) width.size)) op value =
        true := by
  rw [BlockHit, length_slice]
  refine and_congr_right fun hfits => ?_
  rw [unpackFrom, drop_slice, take_slice (by omega)]

/-- The hits of a segment are the hits that begin in it and do not straddle. -/
theorem blockHit_segment {off : ℕ} (hk : k * maxSingleReadBytes < v.total)
    (hoff : off < v.segSize k) :
    BlockHit (slice mem (v.segStart k) (v.segSize k)) v.width v.op v.value off ↔
      v.Hit mem (v.segStart k + off) ∧ ¬ v.Straddles (v.segStart k + off) := by
  have hpos := v.width.size_pos
  have hfits : off + v.width.size ≤ v.segSize k ↔
      v.segStart k + off + v.width.size ≤ v.start + v.total ∧
        ¬ v.Straddles (v.segStart k + off) := by
    unfold ValueScan.Straddles ValueScan.segStart ValueScan.segSize maxSingleReadBytes at *
    omega
  rw [blockHit_slice, hfits, ValueScan.Hit]
  tauto

theorem map_segment_hits (hk : k * maxSingleReadBytes < v.total) :
    (indices (BlockHit (slice mem (v.segStart k) (v.segSize k)) v.width v.op v.value) 0
      (v.segSize k)).map (v.segStart k + ·) =
        indices (fun a => v.Hit mem a ∧ ¬ v.Straddles a) (v.segStart k) (v.segEnd k) := by
  rw [indices_congr fun off _ hoff => blockHit_segment hk hoff,
    map_add_indices (v.segStart k) fun a => v.Hit mem a ∧ ¬ v.Straddles a, Nat.add_zero,
    segStart_add_segSize hk]

/-- The body of the loop appends the hits of its segment, up to the cap. -/
theorem collect_segment (hk : k * maxSingleReadBytes < v.total) {candidates : List ℕ}
    (hcandidates : candidates = v.insideHits mem (v.segStart k))
    (hroom : candidates.length < valueMaxHits) :
    v.collect candidates (v.segStart k) (slice mem (v.segStart k) (v.segSize k)) =
      ((v.insideHits mem (v.segEnd k)).take valueMaxHits,
        decide (((v.insideHits mem (v.segEnd k)).take valueMaxHits).length < valueMaxHits)) := by
  have hremaining : ¬ (valueMaxHits : ℤ) - candidates.length ≤ 0 := by omega
  have hstart : v.start ≤ v.segStart k := Nat.le_add_right _ _
  have hle : v.segStart k ≤ v.segEnd k :=
    segStart_add_segSize hk ▸ Nat.le_add_right _ _
  have hcap : ((valueMaxHits : ℤ) - candidates.length).toNat =
      valueMaxHits - candidates.length := by
    omega
  have hboth : (v.insideHits mem (v.segEnd k)).take valueMaxHits =
      candidates ++ (indices (fun a => v.Hit mem a ∧ ¬ v.Straddles a) (v.segStart k)
        (v.segEnd k)).take (valueMaxHits - candidates.length) := by
    rw [← v.insideHits_append mem hstart hle, ← hcandidates, List.take_append,
      List.take_of_length_le (Nat.le_of_lt hroom)]
  rw [ValueScan.collect, if_neg hremaining, scanBlockHits_eq, length_slice, hcap, List.map_take,
    map_segment_hits hk, hboth]

/-- Hits of later segments do not count once the cap is reached. -/
theorem take_insideHits {hi : ℕ} (hlo : v.start ≤ hi) (hhi : hi ≤ v.start + v.total)
    (hfull : ¬ ((v.insideHits mem hi).take valueMaxHits).length < valueMaxHits) :
    (v.insideHits mem (v.start + v.total)).take valueMaxHits =
      (v.insideHits mem hi).take valueMaxHits := by
  rw [List.length_take] at hfull
  rw [← v.insideHits_append mem hlo hhi, List.take_append_of_le_length (by omega)]

/-- The loop over the segments that are left finds the hits inside one segment, up to the
cap. -/
theorem iterSegments_eq {m calls timeouts : ℕ} {reader : Reader}
    (hreader : ∀ k a n, reader k a n = .data (slice mem a n))
    (hm : (v.total + maxSingleReadBytes - 1) / maxSingleReadBytes = k + m) {candidates : List ℕ}
    (hcandidates : candidates = v.insideHits mem (min (v.segStart k) (v.start + v.total)))
    (hroom : candidates.length < valueMaxHits) :
    iterSegments reader v.start v.total v.collect
      ((List.range' k m).map (· * maxSingleReadBytes)) calls timeouts candidates =
        .finished ((v.insideHits mem (v.start + v.total)).take valueMaxHits) := by
  -- `m` segments are left, and the candidates are the hits inside the first `k`
  induction m generalizing k calls timeouts candidates with
  | zero =>
    have hend : min (v.segStart k) (v.start + v.total) = v.start + v.total := by
      unfold ValueScan.segStart maxSingleReadBytes at *
      omega
    rw [hend] at hcandidates
    rw [← hcandidates, List.take_of_length_le (Nat.le_of_lt hroom)]
    rfl
  | succ m ih =>
    have hk : k * maxSingleReadBytes < v.total := by
      unfold maxSingleReadBytes at *
      omega
    have hbegin : min (v.segStart k) (v.start + v.total) = v.segStart k := by
      unfold ValueScan.segStart
      omega
    have hread : reader calls (v.start + k * maxSingleReadBytes)
        (min maxSingleReadBytes (v.total - k * maxSingleReadBytes)) =
          .data (slice mem (v.segStart k) (v.segSize k)) := by
      rw [hreader, ValueScan.segStart, ValueScan.segSize]
    have hbody := collect_segment hk (hbegin ▸ hcandidates) hroom
    rw [ValueScan.segStart] at hbody
    rw [List.range'_succ, List.map_cons, iterSegments_data hread hbody]
    by_cases hgoes : ((v.insideHits mem (v.segEnd k)).take valueMaxHits).length < valueMaxHits
    · rw [if_pos (decide_eq_true hgoes)]
      have hall : (v.insideHits mem (v.segEnd k)).take valueMaxHits =
          v.insideHits mem (v.segEnd k) := by
        rw [List.length_take] at hgoes
        exact List.take_of_length_le (by omega)
      exact ih (by omega) hall hgoes
    · rw [if_neg (by simpa using hgoes)]
      have hle : v.start ≤ v.segEnd k :=
        Nat.le_min.mpr ⟨Nat.le_add_right _ _, Nat.le_add_right _ _⟩
      rw [take_insideHits hle (Nat.min_le_right _ _) hgoes]

/-- The first phase finds the hits that lie inside one segment, up to the cap. -/
theorem run_eq {reader : Reader} (hreader : ∀ k a n, reader k a n = .data (slice mem a n)) :
    v.run reader = .finished
      (((v.flatHits mem).filter fun a => ¬ v.Straddles a).take valueMaxHits) := by
  have hnone : v.insideHits mem (min (v.segStart 0) (v.start + v.total)) = [] :=
    indices_eq_nil fun a hlo hhi => by
      unfold ValueScan.segStart at hhi
      omega
  rw [ValueScan.run, segmentOffsets, List.range_eq_range',
    iterSegments_eq (k := 0) hreader (by omega) hnone.symm (by decide), v.insideHits_eq_filter]

end Segments

/-! ## The cap -/

/-- Over a fully readable memory the first phase ends, and its candidates are the first hits
of one flat pass exactly if none of these straddles two segments. -/
theorem initialScan_eq_flat_iff {q : InitialRequest} {v : ValueScan} {mem : ℕ → UInt8}
    {reader : Reader} (hvalid : q.validate = .ok v)
    (hreader : ∀ k a n, reader k a n = .data (slice mem a n)) :
    initialScan q reader = .ok (.finished ((v.flatHits mem).take valueMaxHits)) ↔
      ∀ a ∈ (v.flatHits mem).take valueMaxHits, ¬ v.Straddles a := by
  rw [← take_filter_eq_take_iff, initialScan, hvalid]
  dsimp only
  rw [run_eq hreader, Except.ok.injEq, Ending.finished.injEq]

/-- Two bytes that are `0x1234`, at each of these addresses. -/
def pairsAt (places : List ℕ) : ℕ → UInt8 := fun b =>
  if b ∈ places then 0x34 else if b - 1 ∈ places then 0x12 else 0

/-- A scan for `0x1234` over so many bytes. -/
def pairRequest (total : ℤ) : InitialRequest :=
  ⟨some 0x1234, .u16, .eq, some ⟨"0x08800000", 0x08800000⟩, some ⟨"end", 0x08800000 + total⟩,
    valueHardRange⟩

def pairScan (total : ℕ) : ValueScan := ⟨.u16, .eq, 0x1234, 0x08800000, total⟩

theorem hit_pairsAt {places : List ℕ} {b total : ℕ} (h : (pairScan total).Hit (pairsAt places) b) :
    b ∈ places := by
  have hhit := of_decide_eq_true h.2
  by_contra hne
  have hfirst : pairsAt places b = if b - 1 ∈ places then 0x12 else 0 := if_neg hne
  have hsecond : pairsAt places (b + 1) = if b + 1 ∈ places then 0x34 else 0 := by
    unfold pairsAt
    rw [Nat.add_sub_cancel, if_neg hne]
  have hread : slice (pairsAt places) b 2 = [pairsAt places b, pairsAt places (b + 1)] := rfl
  rw [show (pairScan total).width.size = 2 from rfl, show (pairScan total).value = 0x1234 from rfl,
    hread, hfirst, hsecond] at hhit
  split_ifs at hhit <;> exact absurd hhit (by decide)

/-- A pair in the first segment, and one in the second. -/
theorem initialScan_pairs :
    initialScan (pairRequest 0x10010)
        (fun _ a n => .data (slice (pairsAt [0x08800001, 0x08810003]) a n)) =
      .ok (.finished [0x08800001, 0x08810003]) := by
  have hflat : (pairScan 0x10010).flatHits (pairsAt [0x08800001, 0x08810003]) =
      [0x08800001, 0x08810003] := by
    rw [ValueScan.flatHits, indices_cons (i := 0x08800001) (by decide) (by decide) ?_ (by decide),
      indices_cons (i := 0x08810003) (by decide) (by decide) ?_ (by decide), indices_eq_nil ?_]
    all_goals
      intro b hlo hhi hhit
      have hb := hit_pairsAt hhit
      simp only [List.mem_cons, List.not_mem_nil, or_false] at hb
      omega
  have hvalid : (pairRequest 0x10010).validate = .ok (pairScan 0x10010) := rfl
  have hreader (k a n : ℕ) : Answer.data (slice (pairsAt [0x08800001, 0x08810003]) a n) =
      .data (slice (pairsAt [0x08800001, 0x08810003]) a n) := rfl
  have hscan := (initialScan_eq_flat_iff hvalid hreader).mpr (by rw [hflat]; decide)
  rw [hflat] at hscan
  exact hscan

/-- The pair lies across the end of the first segment. -/
theorem straddling_pair_lost :
    initialScan (pairRequest 0x10002) (fun _ a n => .data (slice (pairsAt [0x0880FFFF]) a n)) ≠
      .ok (.finished
        (((pairScan 0x10002).flatHits (pairsAt [0x0880FFFF])).take valueMaxHits)) := by
  have hpair : (pairScan 0x10002).Hit (pairsAt [0x0880FFFF]) 0x0880FFFF := by decide
  have hflat : (pairScan 0x10002).flatHits (pairsAt [0x0880FFFF]) = [0x0880FFFF] := by
    rw [ValueScan.flatHits, indices_cons (i := 0x0880FFFF) (by decide) (by decide)
      (fun b _ hlt hhit => Nat.ne_of_lt hlt (List.mem_singleton.mp (hit_pairsAt hhit))) hpair,
      indices_eq_nil fun b hlo _ hhit =>
        Nat.ne_of_gt hlo (List.mem_singleton.mp (hit_pairsAt hhit))]
  rw [Ne, initialScan_eq_flat_iff (v := pairScan 0x10002) rfl fun _ _ _ => rfl, hflat]
  exact fun hnone => hnone 0x0880FFFF (by decide) (by decide)

end Scan
