import PpssppDfx.Scan.Termination

/-!
# The chunked scan and the flat scan

A reader that yields all the bytes asked for, or fails, makes the scan report what one pass
over the flat range would, less the chunks whose read failed. Each read goes past its chunk
by what a match can take, so no match is lost between two chunks, and none is reported twice.

## Main definitions

* `Scan.Faithful` — a read yields all the bytes asked for, or fails
* `Scan.reported` — the addresses that one pass reports

## Main results

* `scanMemory_eq_reported` — the chunked scan reports them, up to `max_results`
* `reported_eq_flat` — without a failure they are the occurrences in the flat range
-/

set_option autoImplicit false

namespace Scan

open Semantics

variable {r : Request} {reader : Reader} {mem : ℕ → UInt8} {p : Progress}

/-! ## One pass -/

/-- The pattern stands in the memory at `a`, inside the range. -/
def Request.StandsAt (r : Request) (mem : ℕ → UInt8) (a : ℕ) : Prop :=
  a + r.pattern.length ≤ r.stop ∧ slice mem a r.pattern.length = r.pattern

instance (r : Request) (mem : ℕ → UInt8) : DecidablePred (r.StandsAt mem) :=
  fun _ => inferInstanceAs (Decidable (_ ∧ _))

/-- Where the chunk of a call begins, as long as no read is short. -/
def Request.chunkStart (r : Request) (k : ℕ) : ℕ := r.start + k * r.effectiveChunk

/-- The call that reads the chunk containing `a`. -/
def Request.chunkOf (r : Request) (a : ℕ) : ℕ := (a - r.start) / r.effectiveChunk

def Answer.succeeds : Answer → Bool
  | .data _ => true
  | _ => false

/-- The read of the chunk containing `a` succeeds. -/
def ReadOf (r : Request) (reader : Reader) (a : ℕ) : Prop :=
  (reader (r.chunkOf a) (r.chunkStart (r.chunkOf a))
    (r.readSize (r.chunkStart (r.chunkOf a)))).succeeds = true

instance (r : Request) (reader : Reader) : DecidablePred (ReadOf r reader) :=
  fun _ => inferInstanceAs (Decidable (_ = _))

/-- The addresses at which the pattern stands and whose chunk was read, in ascending
order, up to an address. -/
def reportedTo (r : Request) (reader : Reader) (mem : ℕ → UInt8) (hi : ℕ) : List ℕ :=
  indices (fun a => r.StandsAt mem a ∧ ReadOf r reader a) r.start hi

def reported (r : Request) (reader : Reader) (mem : ℕ → UInt8) : List ℕ :=
  reportedTo r reader mem r.stop

/-- A read yields all the bytes asked for, or fails. -/
def Faithful (reader : Reader) (mem : ℕ → UInt8) : Prop :=
  ∀ k a n, reader k a n = .fails ∨ reader k a n = .data (slice mem a n)

/-- The match at an address. -/
def Request.matchAt (r : Request) (a : ℕ) : Match := ⟨a, hexUpper r.pattern⟩

/-! ## The search of one chunk -/

/-- From an index past the data nothing is found. -/
theorem indices_occursAt_of_length_le (hne : r.pattern ≠ []) {data : Bytes} {lo hi : ℕ}
    (h : data.length ≤ lo) : indices (OccursAt r.pattern data) lo hi = [] :=
  indices_eq_nil fun i hlo _ hoccurs => by
    have hfits := hoccurs.add_length_le hne
    have hpos : 0 < r.pattern.length := List.length_pos_of_ne_nil hne
    omega

/-- The match that the search reports is the pattern. -/
theorem matchAt_of_occursAt {data : Bytes} {i : ℕ} (h : OccursAt r.pattern data i) (cursor : ℕ) :
    (⟨cursor + i, hexUpper ((data.drop i).take r.pattern.length)⟩ : Match) =
      r.matchAt (cursor + i) := by
  rw [Request.matchAt, ← List.prefix_iff_eq_take.mp h]

/-- The search appends the occurrences that begin inside the chunk, and stops at
`max_results`. -/
theorem searchChunk_eq (hne : r.pattern ≠ []) (cursor : ℕ) {data : Bytes}
    {fuel searchStart : ℕ} {found : List Match}
    (hfuel : data.length ≤ fuel + searchStart) (hfound : (found.length : ℤ) < r.maxResults) :
    searchChunk r cursor data fuel searchStart found =
      (found ++ (indices (OccursAt r.pattern data) searchStart
        (r.chunkEnd cursor - cursor)).map fun i => r.matchAt (cursor + i)).take
          r.maxResults.toNat := by
  have hshort : found.take r.maxResults.toNat = found := List.take_of_length_le (by omega)
  -- the search goes on behind the last match, so the induction is over all positions
  induction fuel generalizing searchStart found with
  | zero =>
    rw [indices_occursAt_of_length_le hne (by omega)]
    simp [searchChunk, hshort]
  | succ fuel ih =>
    by_cases hlength : searchStart < data.length
    · rw [searchChunk, if_pos hlength]
      split
      · rename_i hnone
        rw [indices_eq_nil fun i hi _ => findFrom_eq_none hnone hne i hi]
        simp [hshort]
      · rename_i idx hsome
        obtain ⟨hle, hoccurs, hfirst⟩ := findFrom_eq_some hsome
        dsimp only
        by_cases htail : r.chunkEnd cursor ≤ cursor + idx
        · -- The first occurrence lies in the overlap.
          rw [if_pos htail, indices_eq_nil fun i hi hlt => hfirst i hi (by omega)]
          simp [hshort]
        · have hinside : cursor + idx < r.stop := by
            have hend : r.chunkEnd cursor ≤ r.stop := Nat.min_le_right _ _
            omega
          rw [if_neg htail, if_pos hinside, matchAt_of_occursAt hoccurs,
            indices_cons hle (by omega) hfirst hoccurs, List.map_cons,
            List.append_cons found _ (List.map _ _)]
          have hlonger : (found ++ [r.matchAt (cursor + idx)]).length = found.length + 1 := by
            simp
          -- the match counts; the search ends with it when it was the last one wanted
          by_cases hmax : r.maxResults ≤ ((found ++ [r.matchAt (cursor + idx)]).length : ℤ)
          · rw [if_pos hmax, List.take_append_of_le_length (by omega),
              List.take_of_length_le (by omega)]
          · rw [if_neg hmax]
            exact ih (by omega) (by omega) (List.take_of_length_le (by omega))
    · rw [searchChunk, if_neg hlength, indices_occursAt_of_length_le hne (by omega)]
      simp [hshort]

/-! ## Chunks -/

theorem chunkOf_eq {k a : ℕ} (hlo : r.chunkStart k ≤ a) (hhi : a < r.chunkStart (k + 1)) :
    r.chunkOf a = k := by
  unfold Request.chunkStart at hlo hhi
  refine Nat.div_eq_of_lt_le ?_ ?_ <;> omega

theorem chunkEnd_chunkStart (r : Request) (k : ℕ) :
    r.chunkEnd (r.chunkStart k) = min (r.chunkStart (k + 1)) r.stop := by
  unfold Request.chunkEnd Request.chunkStart
  rw [Nat.succ_mul, Nat.add_assoc]

/-- An occurrence that begins inside the chunk stands in the range exactly if it stands in
what was read. -/
theorem occursAt_read_iff (hne : r.pattern ≠ []) {cursor i : ℕ}
    (hi : i < r.chunkEnd cursor - cursor) :
    OccursAt r.pattern (slice mem cursor (r.readSize cursor)) i ↔
      r.StandsAt mem (cursor + i) := by
  have hend : r.chunkEnd cursor ≤ r.stop := Nat.min_le_right _ _
  have hpos : 0 < r.pattern.length := List.length_pos_of_ne_nil hne
  have hfits : i + r.pattern.length ≤ r.readSize cursor ↔
      cursor + i + r.pattern.length ≤ r.stop := by
    unfold Request.readSize Request.readEnd Request.overlap
    split <;> omega
  rw [occursAt_slice hne, hfits, Request.StandsAt]

/-- Every address of a chunk is read by the chunk's call. -/
theorem readOf_iff {k a : ℕ} (hlo : r.chunkStart k ≤ a)
    (hhi : a < r.chunkEnd (r.chunkStart k)) :
    ReadOf r reader a ↔
      (reader k (r.chunkStart k) (r.readSize (r.chunkStart k))).succeeds = true := by
  rw [chunkEnd_chunkStart] at hhi
  rw [ReadOf, chunkOf_eq hlo (by omega)]

/-- What the search of a chunk that was read appends. -/
theorem map_occursAt_read (hne : r.pattern ≠ []) {k : ℕ}
    (hread : (reader k (r.chunkStart k) (r.readSize (r.chunkStart k))).succeeds = true) :
    (indices (OccursAt r.pattern (slice mem (r.chunkStart k) (r.readSize (r.chunkStart k)))) 0
      (r.chunkEnd (r.chunkStart k) - r.chunkStart k)).map
        (fun i => r.matchAt (r.chunkStart k + i)) =
    (indices (fun a => r.StandsAt mem a ∧ ReadOf r reader a) (r.chunkStart k)
      (r.chunkEnd (r.chunkStart k))).map r.matchAt := by
  by_cases hlt : r.chunkStart k < r.stop
  · have hend : r.chunkStart k + (r.chunkEnd (r.chunkStart k) - r.chunkStart k) =
        r.chunkEnd (r.chunkStart k) := by
      have := lt_chunkEnd hlt
      omega
    have hshift := map_add_indices (r.chunkStart k)
      (fun a => r.StandsAt mem a ∧ ReadOf r reader a) 0
      (r.chunkEnd (r.chunkStart k) - r.chunkStart k)
    rw [Nat.add_zero, hend] at hshift
    rw [← hshift, List.map_map]
    refine congrArg _ (indices_congr fun i _ hi => ?_)
    rw [occursAt_read_iff hne hi, readOf_iff (Nat.le_add_right _ _) (by omega)]
    exact (and_iff_left hread).symm
  · have hempty : r.chunkEnd (r.chunkStart k) ≤ r.chunkStart k := by
      have : r.chunkEnd (r.chunkStart k) ≤ r.stop := Nat.min_le_right _ _
      omega
    rw [indices_eq_nil fun i _ hi => by omega, indices_eq_nil fun i hi hlt => by omega]
    rfl

/-- A chunk whose read failed adds nothing. -/
theorem indices_of_fails {k : ℕ}
    (hread : (reader k (r.chunkStart k) (r.readSize (r.chunkStart k))).succeeds = false) :
    indices (fun a => r.StandsAt mem a ∧ ReadOf r reader a) (r.chunkStart k)
      (r.chunkEnd (r.chunkStart k)) = [] :=
  indices_eq_nil fun a hlo hhi ⟨_, hreadOf⟩ => by
    rw [readOf_iff hlo hhi, hread] at hreadOf
    exact Bool.noConfusion hreadOf

/-! ## The loop -/

/-- What holds between two iterations: as many chunks are behind the cursor as reads were
made, and what one pass reports up to the cursor has been found, up to `max_results`. -/
structure Chunked (r : Request) (reader : Reader) (mem : ℕ → UInt8) (p : Progress) : Prop where
  cursor : p.cursor = min (r.chunkStart p.calls) r.stop
  found : p.found = ((reportedTo r reader mem p.cursor).map r.matchAt).take r.maxResults.toNat

theorem chunked_begin (reader : Reader) (mem : ℕ → UInt8) (h : r.start ≤ r.stop) :
    Chunked r reader mem r.begin where
  cursor := by simp [Request.begin, Request.chunkStart, h]
  found := by simp [Request.begin, reportedTo, indices]

/-- As long as results are wanted, all that one pass reports so far has been found. -/
theorem Chunked.found_eq (h : Chunked r reader mem p) (hwants : p.Wants r) :
    p.found = (reportedTo r reader mem p.cursor).map r.matchAt := by
  have hlength := hwants.2
  rw [h.found, List.length_take] at hlength
  rw [h.found, List.take_of_length_le (by omega)]

theorem reportedTo_append {mid hi : ℕ} (hlo : r.start ≤ mid) (hhi : mid ≤ hi) :
    reportedTo r reader mem mid ++
      indices (fun a => r.StandsAt mem a ∧ ReadOf r reader a) mid hi =
        reportedTo r reader mem hi :=
  indices_append hlo hhi

/-- An iteration over a chunk keeps the invariant and moves the cursor. -/
theorem Chunked.step (hne : r.pattern ≠ []) (hreader : Faithful reader mem)
    (h : Chunked r reader mem p) (hwants : p.Wants r) :
    ∃ q, Steps r reader p q ∧ Chunked r reader mem q ∧ p.cursor < q.cursor := by
  have hcursor : p.cursor = r.chunkStart p.calls := by
    have := h.cursor
    have := hwants.1
    omega
  have hmoves := lt_chunkEnd hwants.1
  have hstart : r.start ≤ p.cursor := hcursor ▸ Nat.le_add_right _ _
  have hend : r.chunkEnd p.cursor = min (r.chunkStart (p.calls + 1)) r.stop := by
    rw [hcursor, chunkEnd_chunkStart]
  have hsize := readSize_pos hwants.1
  have hfound := h.found_eq hwants
  rcases hreader p.calls p.cursor (r.readSize p.cursor) with hfails | hdata
  · refine ⟨p.skip r p.consecutiveTimeouts, ?_, ⟨hend, ?_⟩, hmoves⟩
    · simp only [Steps, scanStep, if_pos hwants, Nat.ne_of_gt hsize, if_false, hfails]
    · have hnone : indices (fun a => r.StandsAt mem a ∧ ReadOf r reader a) p.cursor
          (r.chunkEnd p.cursor) = [] := by
        rw [hcursor] at hfails ⊢
        exact indices_of_fails (by rw [hfails]; rfl)
      show p.found = ((reportedTo r reader mem (r.chunkEnd p.cursor)).map r.matchAt).take _
      rw [← reportedTo_append hstart (Nat.le_of_lt hmoves), hnone, List.append_nil]
      exact h.found
  · refine ⟨⟨r.chunkEnd p.cursor, searchChunk r p.cursor (slice mem p.cursor (r.readSize p.cursor))
      (r.readSize p.cursor) 0 p.found, 0, p.calls + 1⟩, ?_, ⟨hend, ?_⟩, hmoves⟩
    · simp only [Steps, scanStep, if_pos hwants, Nat.ne_of_gt hsize, if_false, hdata,
        length_slice, Nat.lt_irrefl]
    · show searchChunk r p.cursor (slice mem p.cursor (r.readSize p.cursor)) _ 0 p.found =
        ((reportedTo r reader mem (r.chunkEnd p.cursor)).map r.matchAt).take _
      rw [searchChunk_eq hne p.cursor (by simp) hwants.2,
        ← reportedTo_append hstart (Nat.le_of_lt hmoves), List.map_append, ← hfound, hcursor,
        map_occursAt_read hne]
      rw [hcursor] at hdata
      rw [hdata]
      rfl

/-- A loop that ends with the invariant has found what one pass reports. -/
theorem Chunked.found_of_not_wants (h : Chunked r reader mem p) (hrange : r.start ≤ r.stop)
    (hwants : ¬ p.Wants r) :
    p.found = ((reported r reader mem).map r.matchAt).take r.maxResults.toNat := by
  have hcursor := h.cursor
  by_cases hdone : p.cursor = r.stop
  · rw [h.found, hdone]
    rfl
  · have hfull : r.maxResults.toNat ≤
        ((reportedTo r reader mem p.cursor).map r.matchAt).length := by
      have hlength : ¬ (p.found.length : ℤ) < r.maxResults :=
        fun hlt => hwants ⟨by omega, hlt⟩
      rw [h.found, List.length_take] at hlength
      omega
    have hstart : r.start ≤ p.cursor := by
      have : r.start ≤ r.chunkStart p.calls := Nat.le_add_right _ _
      omega
    rw [h.found, reported, ← reportedTo_append hstart (by omega : p.cursor ≤ r.stop),
      List.map_append, List.take_append_of_le_length hfull]

theorem scanLoop_of_chunked (hne : r.pattern ≠ []) (hreader : Faithful reader mem)
    (hrange : r.start ≤ r.stop) (h : Chunked r reader mem p) :
    ∃ fuel, scanLoop r reader fuel p =
      some (.returns (((reported r reader mem).map r.matchAt).take r.maxResults.toNat)) := by
  induction hrest : r.stop - p.cursor using Nat.strong_induction_on generalizing p with
  | _ rest ih =>
    by_cases hwants : p.Wants r
    · obtain ⟨q, hstep, hq, hmoved⟩ := h.step hne hreader hwants
      obtain ⟨fuel, hfuel⟩ := ih (r.stop - q.cursor) (by have := hwants.1; omega) hq rfl
      exact ⟨fuel + 1, (scanLoop_of_steps hstep fuel).trans hfuel⟩
    · refine ⟨1, ?_⟩
      simp only [scanLoop, scanStep_of_not_wants hwants]
      rw [h.found_of_not_wants hrange hwants]

/-- The scan ends, with what one pass reports, up to `max_results`. -/
theorem scanMemory_returns (hne : r.pattern ≠ []) (hreader : Faithful reader mem) :
    ∃ fuel, scanMemory r reader fuel =
      some (.returns (((reported r reader mem).map r.matchAt).take r.maxResults.toNat)) := by
  by_cases hrange : r.stop ≤ r.start
  · refine ⟨0, ?_⟩
    have hnone : reported r reader mem = [] := indices_eq_nil fun i hlo hhi => by omega
    simp [scanMemory, hrange, hnone]
  · obtain ⟨fuel, hfuel⟩ := scanLoop_of_chunked hne hreader (by omega)
      (chunked_begin reader mem (by omega : r.start ≤ r.stop))
    exact ⟨fuel, by rw [scanMemory, if_neg hne, if_neg hrange, hfuel]⟩

/-- If every read succeeds, one pass reports the occurrences in the flat range. -/
theorem reported_eq_flat (hne : r.pattern ≠ [])
    (hreads : ∀ k a n, (reader k a n).succeeds = true) :
    reported r reader mem = (indices (OccursAt r.pattern (slice mem r.start (r.stop - r.start))) 0
      (r.stop - r.start)).map (r.start + ·) := by
  have hshift := map_add_indices r.start (fun a => r.StandsAt mem a ∧ ReadOf r reader a) 0
    (r.stop - r.start)
  have hcongr : indices (OccursAt r.pattern (slice mem r.start (r.stop - r.start))) 0
      (r.stop - r.start) = indices (fun i => r.StandsAt mem (r.start + i) ∧
        ReadOf r reader (r.start + i)) 0 (r.stop - r.start) := indices_congr fun i _ hi => by
    have hfits : i + r.pattern.length ≤ r.stop - r.start ↔
        r.start + i + r.pattern.length ≤ r.stop := by omega
    rw [occursAt_slice hne, hfits]
    exact (and_iff_left (hreads _ _ _)).symm
  rw [hcongr, hshift, reported, reportedTo, Nat.add_zero]
  by_cases hrange : r.start ≤ r.stop
  · rw [Nat.add_sub_cancel' hrange]
  · rw [indices_eq_nil fun i hlo hhi => by omega, indices_eq_nil fun i hlo hhi => by omega]

/-- The scan ends and returns what one pass reports, up to `max_results`: the addresses, in
ascending order, at which the pattern stands inside the range and whose chunk was read. If
every read succeeds these are the occurrences in the flat range, whatever the chunk size. -/
theorem scanMemory_eq_reported (hne : r.pattern ≠ []) (hreader : Faithful reader mem) :
    ∃ enough found, (∀ fuel, enough ≤ fuel → scanMemory r reader fuel = some (.returns found)) ∧
      found = ((reported r reader mem).take r.maxResults.toNat).map r.matchAt ∧
      (found.map (·.address)).Pairwise (· < ·) ∧
      ((∀ k a n, (reader k a n).succeeds = true) →
        found.map (·.address) =
          ((indices (OccursAt r.pattern (slice mem r.start (r.stop - r.start))) 0
            (r.stop - r.start)).map (r.start + ·)).take r.maxResults.toNat) := by
  obtain ⟨enough, hreturns⟩ := scanMemory_returns hne hreader
  have haddress : ∀ l : List ℕ, (l.map r.matchAt).map (·.address) = l := fun l => by
    simp [Request.matchAt, Function.comp_def]
  rw [← List.map_take] at hreturns
  refine ⟨enough, _, fun fuel hfuel => scanMemory_of_le hfuel hreturns, rfl, ?_, fun hreads => ?_⟩
  · rw [haddress]
    exact (indices_pairwise _ _ _).sublist (List.take_sublist _ _)
  · rw [haddress, reported_eq_flat hne hreads]

/-- Two ones, in chunks of one byte. -/
def twoOnes : Request := ⟨[1, 1], 8, 12, 2, 1⟩

/-- Memory full of ones, of which the second read fails. -/
def gapReader : Reader := fun k a n => if k = 1 then .fails else .data (slice (fun _ => 1) a n)

theorem faithful_gapReader : Faithful gapReader fun _ => 1 := fun k a n => by
  by_cases hk : k = 1
  · exact Or.inl (if_pos hk)
  · exact Or.inr (if_neg hk)

theorem scanMemory_eq_reported_ones :
    ∃ enough found, (∀ fuel, enough ≤ fuel →
      scanMemory twoOnes gapReader fuel = some (.returns found)) ∧
        found = ((reported twoOnes gapReader fun _ => 1).take 2).map twoOnes.matchAt :=
  have ⟨enough, found, hreturns, hfound, _⟩ :=
    scanMemory_eq_reported (r := twoOnes) (by decide) faithful_gapReader
  ⟨enough, found, hreturns, hfound⟩

example : reported twoOnes gapReader (fun _ => 1) = [8, 10] := by decide

end Scan
