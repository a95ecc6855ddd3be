import Mathlib.Order.Monotone.Basic
import PpssppDfx.Scan.Flat

/-!
# The pattern scan over short reads

After a short read the cursor moves on by as many bytes as were read, and the next read
begins there: nothing of what was read is read again. An occurrence of the pattern that the
read cuts off is lost, and so is one that begins in the overlap behind the chunk.

## Main definitions

* `Scan.Short` — every read yields some bytes of what was asked for
* `Scan.cursorAt` — where the reads begin
* `Scan.Cut` — an occurrence that the read of its first byte does not report

## Main results

* `scanMemory_short` — the scan reports the occurrences that are not cut
* `scanMemory_eq_occurrences_iff` — when it reports them all
-/

set_option autoImplicit false

namespace Scan

open Semantics

variable {r : Request} {reader : Reader} {mem : ℕ → UInt8} {p : Progress} {k a : ℕ}

/-! ## Where the reads begin -/

/-- Every read yields a prefix of what was asked for, and at least one byte. -/
def Short (reader : Reader) (mem : ℕ → UInt8) : Prop :=
  ∀ k a n, 0 < n → ∃ m, 0 < m ∧ m ≤ n ∧ reader k a n = .data (slice mem a m)

/-- How many bytes a read yields. -/
def Answer.length : Answer → ℕ
  | .data bytes => bytes.length
  | _ => 0

/-- The cursor after a read that begins at `cursor`. -/
def advance (r : Request) (reader : Reader) (k cursor : ℕ) : ℕ :=
  if (reader k cursor (r.readSize cursor)).length < r.readSize cursor then
    cursor + (reader k cursor (r.readSize cursor)).length
  else r.chunkEnd cursor

/-- Where the read of a call begins. -/
def cursorAt (r : Request) (reader : Reader) : ℕ → ℕ
  | 0 => r.start
  | k + 1 => advance r reader k (cursorAt r reader k)

/-- What the call from which the cursor passes `a` reads ends before the pattern does that
begins at `a`, or `a` lies behind the chunk of the call. -/
def Cut (r : Request) (reader : Reader) (a : ℕ) : Prop :=
  ∃ k, cursorAt r reader k ≤ a ∧ a < cursorAt r reader (k + 1) ∧
    (cursorAt r reader k +
        (reader k (cursorAt r reader k) (r.readSize (cursorAt r reader k))).length <
          a + r.pattern.length ∨
      r.chunkEnd (cursorAt r reader k) ≤ a)

/-- The addresses at which the pattern stands in the range, in ascending order. -/
def occurrences (r : Request) (mem : ℕ → UInt8) : List ℕ :=
  indices (r.StandsAt mem) r.start r.stop

theorem lt_advance (hreader : Short reader mem) {cursor : ℕ} (h : cursor < r.stop) :
    cursor < advance r reader k cursor := by
  obtain ⟨m, hpos, -, hdata⟩ := hreader k cursor _ (readSize_pos h)
  have hmoves := lt_chunkEnd h
  unfold advance
  rw [hdata]
  simp only [Answer.length, length_slice]
  split <;> omega

theorem advance_le {cursor : ℕ} (h : cursor ≤ r.stop) :
    advance r reader k cursor ≤ r.stop := by
  have hchunk : r.chunkEnd cursor ≤ r.stop := Nat.min_le_right _ _
  have hread : cursor + r.readSize cursor ≤ r.stop := by
    unfold Request.readSize Request.readEnd
    split <;> omega
  unfold advance
  split <;> omega

theorem cursorAt_le (hrange : r.start ≤ r.stop) (k : ℕ) :
    cursorAt r reader k ≤ r.stop := by
  induction k with
  | zero => exact hrange
  | succ k ih => exact advance_le ih

theorem cursorAt_mono (hreader : Short reader mem) (hrange : r.start ≤ r.stop) :
    Monotone (cursorAt r reader) := by
  refine monotone_nat_of_le_succ fun k => ?_
  rcases Nat.lt_or_eq_of_le (cursorAt_le hrange k) with hlt | hend
  · exact (lt_advance hreader hlt).le
  -- at the end of the range the cursor stands still
  · have hchunk : r.chunkEnd (cursorAt r reader k) = r.stop := by
      unfold Request.chunkEnd
      omega
    have hsize : r.readSize (cursorAt r reader k) = 0 := by
      unfold Request.readSize Request.readEnd
      rw [hchunk, if_neg (Nat.lt_irrefl _)]
      omega
    rw [cursorAt, advance, hsize, if_neg (Nat.not_lt_zero _), hchunk, hend]

/-- Only one call passes an address. -/
theorem cut_iff (hreader : Short reader mem) (hrange : r.start ≤ r.stop)
    (hlo : cursorAt r reader k ≤ a) (hhi : a < cursorAt r reader (k + 1)) :
    Cut r reader a ↔
      cursorAt r reader k +
          (reader k (cursorAt r reader k) (r.readSize (cursorAt r reader k))).length <
            a + r.pattern.length ∨
        r.chunkEnd (cursorAt r reader k) ≤ a := by
  constructor
  · rintro ⟨j, hjlo, hjhi, hcut⟩
    have hmono := cursorAt_mono hreader hrange
    obtain rfl : j = k := by
      rcases Nat.lt_trichotomy j k with hjk | rfl | hkj
      -- an earlier call has not come that far, and a later one begins behind the address
      · have hpassed : cursorAt r reader (j + 1) ≤ cursorAt r reader k := hmono hjk
        omega
      · rfl
      · have hpassed : cursorAt r reader (k + 1) ≤ cursorAt r reader j := hmono hkj
        omega
    exact hcut
  · exact fun hcut => ⟨k, hlo, hhi, hcut⟩

/-! ## The loop -/

open scoped Classical in
/-- The occurrences up to an address that are not cut. -/
noncomputable def uncutTo (r : Request) (reader : Reader) (mem : ℕ → UInt8) (hi : ℕ) : List ℕ :=
  indices (fun a => r.StandsAt mem a ∧ ¬ Cut r reader a) r.start hi

/-- What holds between two iterations: the cursor is where the next read begins, and the
occurrences behind it that are not cut have been found, up to `max_results`. -/
structure Swept (r : Request) (reader : Reader) (mem : ℕ → UInt8) (p : Progress) : Prop where
  cursor : p.cursor = cursorAt r reader p.calls
  found : p.found = ((uncutTo r reader mem p.cursor).map r.matchAt).take r.maxResults.toNat

theorem swept_begin (reader : Reader) (mem : ℕ → UInt8) : Swept r reader mem r.begin where
  cursor := rfl
  found := by simp [Request.begin, uncutTo, indices]

open scoped Classical in
theorem uncutTo_append {mid hi : ℕ} (hlo : r.start ≤ mid) (hhi : mid ≤ hi) :
    uncutTo r reader mem mid ++ indices (fun a => r.StandsAt mem a ∧ ¬ Cut r reader a) mid hi =
      uncutTo r reader mem hi :=
  indices_append hlo hhi

open scoped Classical in
/-- The search of what a call read appends the occurrences that the cursor passes and that
are not cut. -/
theorem map_occursAt_short (hne : r.pattern ≠ []) (hreader : Short reader mem)
    (hrange : r.start ≤ r.stop) {m : ℕ} (hwants : cursorAt r reader k < r.stop)
    (hm : m ≤ r.readSize (cursorAt r reader k))
    (hdata : reader k (cursorAt r reader k) (r.readSize (cursorAt r reader k)) =
      .data (slice mem (cursorAt r reader k) m)) :
    (indices (OccursAt r.pattern (slice mem (cursorAt r reader k) m)) 0
      (r.chunkEnd (cursorAt r reader k) - cursorAt r reader k)).map
        (fun i => r.matchAt (cursorAt r reader k + i)) =
    (indices (fun a => r.StandsAt mem a ∧ ¬ Cut r reader a) (cursorAt r reader k)
      (cursorAt r reader (k + 1))).map r.matchAt := by
  have hpos : 0 < r.pattern.length := List.length_pos_of_ne_nil hne
  have hchunk := lt_chunkEnd hwants
  have hread : cursorAt r reader k + r.readSize (cursorAt r reader k) ≤ r.stop := by
    have : r.chunkEnd (cursorAt r reader k) ≤ r.stop := Nat.min_le_right _ _
    unfold Request.readSize Request.readEnd
    split <;> omega
  have hnext : cursorAt r reader (k + 1) =
      if m < r.readSize (cursorAt r reader k) then cursorAt r reader k + m
      else r.chunkEnd (cursorAt r reader k) := by
    rw [cursorAt, advance, hdata, Answer.length, length_slice]
  have hcut : ∀ a, cursorAt r reader k ≤ a → a < cursorAt r reader (k + 1) →
      (Cut r reader a ↔ cursorAt r reader k + m < a + r.pattern.length ∨
        r.chunkEnd (cursorAt r reader k) ≤ a) := fun a hlo hhi => by
    rw [cut_iff hreader hrange hlo hhi, hdata, Answer.length, length_slice]
  generalize cursorAt r reader k = c at *
  generalize cursorAt r reader (k + 1) = next at *
  -- both searches find the occurrences that lie in what was read and begin in the chunk
  let Inside (a : ℕ) : Prop :=
    a + r.pattern.length ≤ c + m ∧ a < r.chunkEnd c ∧ slice mem a r.pattern.length = r.pattern
  have hshift := map_add_indices c Inside 0 (r.chunkEnd c - c)
  rw [Nat.add_zero, Nat.add_sub_cancel' hchunk.le] at hshift
  have hleft : indices (OccursAt r.pattern (slice mem c m)) 0 (r.chunkEnd c - c) =
      indices (fun i => Inside (c + i)) 0 (r.chunkEnd c - c) := indices_congr fun i _ hi => by
    rw [occursAt_slice hne]
    have hbegins : c + i < r.chunkEnd c := by omega
    have hfits : i + r.pattern.length ≤ m ↔ c + i + r.pattern.length ≤ c + m := by omega
    rw [hfits]
    exact ⟨fun ⟨hend, hstands⟩ => ⟨hend, hbegins, hstands⟩, fun ⟨hend, _, hstands⟩ => ⟨hend, hstands⟩⟩
  have hright : indices (fun a => r.StandsAt mem a ∧ ¬ Cut r reader a) c next =
      indices Inside c next := indices_congr fun a hlo hhi => by
    rw [hcut a hlo hhi, not_or, Nat.not_lt, Nat.not_le, Request.StandsAt]
    constructor
    · rintro ⟨⟨-, hstands⟩, hend, hbegins⟩
      exact ⟨hend, hbegins, hstands⟩
    · rintro ⟨hend, hbegins, hstands⟩
      exact ⟨⟨by omega, hstands⟩, hend, hbegins⟩
  have hsame : indices Inside c (r.chunkEnd c) = indices Inside c next :=
    indices_eq_of_lt (fun a _ hin => hin.2.1) fun a _ hin => by
      have hend := hin.1
      have hbegins := hin.2.1
      rw [hnext]
      split <;> omega
  rw [hleft, hright, ← hsame, ← hshift, List.map_map]
  rfl

/-- As long as results are wanted, all that is not cut has been found. -/
theorem Swept.found_eq (h : Swept r reader mem p) (hwants : p.Wants r) :
    p.found = (uncutTo r reader mem p.cursor).map r.matchAt := by
  have hlength := hwants.2
  rw [h.found, List.length_take] at hlength
  rw [h.found, List.take_of_length_le (by omega)]

/-- An iteration keeps the invariant and moves the cursor. -/
theorem Swept.step (hne : r.pattern ≠ []) (hreader : Short reader mem) (hrange : r.start ≤ r.stop)
    (h : Swept r reader mem p) (hwants : p.Wants r) :
    ∃ q, Steps r reader p q ∧ Swept r reader mem q ∧ p.cursor < q.cursor := by
  have hsize := readSize_pos hwants.1
  obtain ⟨m, hpos, hm, hdata⟩ := hreader p.calls p.cursor _ hsize
  have hfound := h.found_eq hwants
  have hcursor := h.cursor
  have hnext : cursorAt r reader (p.calls + 1) =
      if m < r.readSize p.cursor then p.cursor + m else r.chunkEnd p.cursor := by
    rw [cursorAt, advance, ← hcursor, hdata, Answer.length, length_slice]
  have hmoves : p.cursor < cursorAt r reader (p.calls + 1) := by
    rw [cursorAt, ← hcursor]
    exact lt_advance hreader hwants.1
  have hstart : r.start ≤ p.cursor := by
    rw [hcursor]
    exact cursorAt_mono hreader hrange (Nat.zero_le _)
  refine ⟨⟨cursorAt r reader (p.calls + 1), searchChunk r p.cursor (slice mem p.cursor m) m 0
    p.found, 0, p.calls + 1⟩, ?_, ⟨rfl, ?_⟩, hmoves⟩
  · simp only [Steps, scanStep, if_pos hwants, Nat.ne_of_gt hsize, if_false, hdata, length_slice,
      hnext]
  · show searchChunk r p.cursor (slice mem p.cursor m) m 0 p.found =
      ((uncutTo r reader mem (cursorAt r reader (p.calls + 1))).map r.matchAt).take _
    rw [searchChunk_eq hne p.cursor (by simp) hwants.2, ← uncutTo_append hstart hmoves.le,
      List.map_append, ← hfound, hcursor,
      map_occursAt_short hne hreader hrange (hcursor ▸ hwants.1) (hcursor ▸ hm) (hcursor ▸ hdata)]

/-- A loop that ends with the invariant has found what is not cut. -/
theorem Swept.found_of_not_wants (hreader : Short reader mem) (hrange : r.start ≤ r.stop)
    (h : Swept r reader mem p) (hwants : ¬ p.Wants r) :
    p.found = ((uncutTo r reader mem r.stop).map r.matchAt).take r.maxResults.toNat := by
  have hle : p.cursor ≤ r.stop := h.cursor ▸ cursorAt_le hrange p.calls
  by_cases hdone : p.cursor = r.stop
  · rw [h.found, hdone]
  -- the loop ended because enough was found
  · have hfull : r.maxResults.toNat ≤
        ((uncutTo r reader mem p.cursor).map r.matchAt).length := by
      have hlength : ¬ (p.found.length : ℤ) < r.maxResults :=
        fun hlt => hwants ⟨by omega, hlt⟩
      rw [h.found, List.length_take] at hlength
      omega
    have hstart : r.start ≤ p.cursor := by
      rw [h.cursor]
      exact cursorAt_mono hreader hrange (Nat.zero_le _)
    rw [h.found, ← uncutTo_append hstart hle, List.map_append, List.take_append_of_le_length hfull]

theorem scanLoop_of_swept (hne : r.pattern ≠ []) (hreader : Short reader mem)
    (hrange : r.start ≤ r.stop) (h : Swept r reader mem p) :
    ∃ fuel, scanLoop r reader fuel p =
      some (.returns (((uncutTo r reader mem r.stop).map r.matchAt).take r.maxResults.toNat)) := by
  induction hrest : r.stop - p.cursor using Nat.strong_induction_on generalizing p with
  | _ rest ih =>
    by_cases hwants : p.Wants r
    · obtain ⟨q, hstep, hq, hmoved⟩ := h.step hne hreader hrange hwants
      obtain ⟨fuel, hfuel⟩ := ih (r.stop - q.cursor) (by have := hwants.1; omega) hq rfl
      exact ⟨fuel + 1, (scanLoop_of_steps hstep fuel).trans hfuel⟩
    · refine ⟨1, ?_⟩
      simp only [scanLoop, scanStep_of_not_wants hwants]
      rw [h.found_of_not_wants hreader hrange hwants]

open scoped Classical in
/-- The scan ends with the occurrences that are not cut, up to `max_results`. -/
theorem scanMemory_short (hne : r.pattern ≠ []) (hreader : Short reader mem) :
    ∃ enough, ∀ fuel, enough ≤ fuel → scanMemory r reader fuel =
      some (.returns (((uncutTo r reader mem r.stop).map r.matchAt).take r.maxResults.toNat)) := by
  by_cases hrange : r.stop ≤ r.start
  · refine ⟨0, fun fuel _ => ?_⟩
    have hnone : uncutTo r reader mem r.stop = [] := indices_eq_nil fun i hlo hhi => by omega
    simp [scanMemory, hrange, hnone]
  · obtain ⟨enough, hends⟩ := scanLoop_of_swept hne hreader (by omega)
      (swept_begin (r := r) reader mem)
    refine ⟨enough, fun fuel hfuel => ?_⟩
    rw [scanMemory, if_neg hne, if_neg hrange]
    exact scanLoop_of_le hfuel hends

theorem matchAt_injective (r : Request) : Function.Injective r.matchAt :=
  fun _ _ h => congrArg Match.address h

open scoped Classical in
/-- Over short reads the scan reports every occurrence once, in ascending order and up to
`max_results`, if and only if none of these is cut. -/
theorem scanMemory_eq_occurrences_iff (hne : r.pattern ≠ []) (hreader : Short reader mem) :
    (∃ enough, ∀ fuel, enough ≤ fuel → scanMemory r reader fuel =
        some (.returns (((occurrences r mem).take r.maxResults.toNat).map r.matchAt))) ↔
      ∀ a ∈ (occurrences r mem).take r.maxResults.toNat, ¬ Cut r reader a := by
  have huncut : uncutTo r reader mem r.stop =
      (occurrences r mem).filter fun a => ¬ Cut r reader a := by
    rw [uncutTo, occurrences, indices, indices, List.filter_filter]
    refine List.filter_congr fun a _ => ?_
    rw [Bool.eq_iff_iff]
    simp [and_comm]
  obtain ⟨enough, hends⟩ := scanMemory_short hne hreader
  rw [← take_filter_eq_take_iff, ← huncut]
  constructor
  · rintro ⟨fuel, hall⟩
    have hsame := (hends (max enough fuel) (Nat.le_max_left _ _)).symm.trans
      (hall (max enough fuel) (Nat.le_max_right _ _))
    simp only [Option.some.injEq, Outcome.returns.injEq, ← List.map_take] at hsame
    exact (matchAt_injective r).list_map hsame
  · intro hsame
    refine ⟨enough, fun fuel hfuel => ?_⟩
    rw [hends fuel hfuel, ← List.map_take, hsame]

/-- A reader that yields no more than two bytes at once. -/
def twoBytesReader (mem : ℕ → UInt8) : Reader := fun _ a n => .data (slice mem a (min n 2))

theorem short_twoBytesReader (mem : ℕ → UInt8) : Short (twoBytesReader mem) mem := fun k a n hn =>
  ⟨min n 2, by omega, Nat.min_le_left _ _, rfl⟩

/-- The bytes of the pattern, from an address on. -/
def markAt (a : ℕ) : ℕ → UInt8 := fun b => if b = a then 0xAB else if b = a + 1 then 0xCD else 0

/-- A pattern of two bytes, in a range of four. -/
def markRequest : Request := ⟨[0xAB, 0xCD], 0x08804000, 0x08804004, 10, 65536⟩

/-- The first read holds the whole pattern. -/
theorem scanMemory_markAt :
    ∃ enough, ∀ fuel, enough ≤ fuel →
      scanMemory markRequest (twoBytesReader (markAt 0x08804000)) fuel =
        some (.returns (((occurrences markRequest (markAt 0x08804000)).take
          markRequest.maxResults.toNat).map markRequest.matchAt)) := by
  have hreader := short_twoBytesReader (markAt 0x08804000)
  refine (scanMemory_eq_occurrences_iff (by decide) hreader).mpr fun a ha => ?_
  obtain rfl : a = 0x08804000 := List.mem_singleton.mp ha
  rw [cut_iff (k := 0) hreader (by decide) (by decide) (by decide)]
  decide

/-- The first read ends between the two bytes of the pattern: the scan ends without it. -/
theorem scanMemory_cut :
    Short (twoBytesReader (markAt 0x08804001)) (markAt 0x08804001) ∧
      ¬ ∃ enough, ∀ fuel, enough ≤ fuel →
        scanMemory markRequest (twoBytesReader (markAt 0x08804001)) fuel =
          some (.returns (((occurrences markRequest (markAt 0x08804001)).take
            markRequest.maxResults.toNat).map markRequest.matchAt)) := by
  refine ⟨short_twoBytesReader _, ?_⟩
  rintro ⟨enough, hall⟩
  have hends : scanMemory markRequest (twoBytesReader (markAt 0x08804001)) (max enough 3) =
      some (.returns []) :=
    scanMemory_of_le (Nat.le_max_right _ _) (by decide)
  have hsame := hends.symm.trans (hall (max enough 3) (Nat.le_max_left _ _))
  have hstands : occurrences markRequest (markAt 0x08804001) = [0x08804001] := by decide
  rw [hstands] at hsame
  exact absurd hsame (by decide)

end Scan
