import Mathlib.Logic.Relation
import PpssppDfx.Scan.Pattern

/-!
# Whether the pattern scan ends

An iteration moves the cursor unless the read was empty: then the loop asks again at the
same address. It runs forever exactly when it arrives at an address at which the reader
never yields anything.

## Main results

* `scanMemory_ends_iff` — the scan ends if and only if it does not stall
* `empty_reads_stall` — a reader that answers every call with an empty read
-/

set_option autoImplicit false

namespace Scan

open Semantics Relation

variable {r : Request} {reader : Reader} {p q : Progress}

/-- The loop goes on from one state to the next. -/
def Steps (r : Request) (reader : Reader) (p q : Progress) : Prop :=
  scanStep r reader p = .inl q

/-- The loop arrives at an address of the range with results still wanted, at which the
reader answers every further call with an empty read. -/
def Stalls (r : Request) (reader : Reader) : Prop :=
  ∃ p, ReflTransGen (Steps r reader) r.begin p ∧ p.Wants r ∧
    ∀ k, p.calls ≤ k → reader k p.cursor (r.readSize p.cursor) = .data []

/-! ## Chunks -/

theorem effectiveChunk_pos (r : Request) : 0 < r.effectiveChunk := by
  have hone : (1 : ℤ) ≤ max 1 (min r.chunkSize ((maxSingleReadBytes : ℤ) - r.overlap)) :=
    le_max_left _ _
  unfold Request.effectiveChunk
  omega

theorem lt_chunkEnd {cursor : ℕ} (h : cursor < r.stop) : cursor < r.chunkEnd cursor := by
  have hpos := effectiveChunk_pos r
  unfold Request.chunkEnd
  omega

theorem chunkEnd_le_readEnd (r : Request) (cursor : ℕ) : r.chunkEnd cursor ≤ r.readEnd cursor := by
  unfold Request.readEnd
  split <;> omega

theorem readSize_pos {cursor : ℕ} (h : cursor < r.stop) : 0 < r.readSize cursor := by
  have hlt := lt_chunkEnd h
  have hle := chunkEnd_le_readEnd r cursor
  unfold Request.readSize
  omega

/-! ## Iterations -/

/-- The loop ends when nothing is wanted any more. -/
theorem scanStep_of_not_wants (h : ¬ p.Wants r) :
    scanStep r reader p = .inr (.returns p.found) := if_neg h

/-- An empty read leaves the loop where it is. -/
theorem scanStep_of_empty (h : p.Wants r)
    (hempty : reader p.calls p.cursor (r.readSize p.cursor) = .data []) :
    scanStep r reader p = .inl { p with consecutiveTimeouts := 0, calls := p.calls + 1 } := by
  have hsize := readSize_pos h.1
  unfold scanStep
  rw [if_pos h]
  simp only [hempty, Nat.ne_of_gt hsize, if_false, searchChunk, List.length_nil, hsize, if_true,
    Nat.add_zero]

/-- Any other answer ends the loop or moves its cursor. -/
theorem scanStep_of_answer (h : p.Wants r)
    (hanswer : reader p.calls p.cursor (r.readSize p.cursor) ≠ .data []) :
    (∃ outcome, scanStep r reader p = .inr outcome) ∨
      ∃ q, scanStep r reader p = .inl q ∧ p.cursor < q.cursor := by
  have hsize := readSize_pos h.1
  have hmoves := lt_chunkEnd h.1
  unfold scanStep
  rw [if_pos h]
  simp only [Nat.ne_of_gt hsize, if_false]
  split
  · split
    · exact Or.inl ⟨_, rfl⟩
    · exact Or.inr ⟨_, rfl, hmoves⟩
  · exact Or.inr ⟨_, rfl, hmoves⟩
  · rename_i data hdata
    refine Or.inr ⟨_, rfl, ?_⟩
    have hnonempty : data ≠ [] := by
      rintro rfl
      exact hanswer hdata
    have hlength : 0 < data.length := List.length_pos_of_ne_nil hnonempty
    dsimp only
    split <;> omega

/-! ## The loop -/

theorem scanLoop_of_steps (h : Steps r reader p q) (fuel : ℕ) :
    scanLoop r reader (fuel + 1) p = scanLoop r reader fuel q := by
  rw [Steps] at h
  simp only [scanLoop, h]

/-- More iterations change nothing once the loop has ended. -/
theorem scanLoop_of_le {fuel more : ℕ} {outcome : Outcome} (hle : fuel ≤ more)
    (h : scanLoop r reader fuel p = some outcome) : scanLoop r reader more p = some outcome := by
  induction more generalizing fuel p with
  | zero =>
    obtain rfl : fuel = 0 := by omega
    exact h
  | succ more ih =>
    cases fuel with
    | zero => exact nomatch h
    | succ fuel =>
      rw [scanLoop] at h ⊢
      cases hstep : scanStep r reader p with
      | inl q =>
        rw [hstep] at h
        exact ih (Nat.le_of_succ_le_succ hle) h
      | inr outcome' =>
        rw [hstep] at h
        exact h

theorem scanMemory_of_le {fuel more : ℕ} {outcome : Outcome} (hle : fuel ≤ more)
    (h : scanMemory r reader fuel = some outcome) : scanMemory r reader more = some outcome := by
  unfold scanMemory at h ⊢
  split_ifs at h ⊢
  · exact h
  · exact h
  · exact scanLoop_of_le hle h

/-- A loop that ends, ends from every state it passes. -/
theorem ends_of_reflTransGen (h : ReflTransGen (Steps r reader) p q)
    (hends : ∃ fuel, (scanLoop r reader fuel p).isSome = true) :
    ∃ fuel, (scanLoop r reader fuel q).isSome = true := by
  induction h with
  | refl => exact hends
  | tail _ hstep ih =>
    obtain ⟨fuel, hfuel⟩ := ih
    cases fuel with
    | zero => simp [scanLoop] at hfuel
    | succ fuel => exact ⟨fuel, scanLoop_of_steps hstep fuel ▸ hfuel⟩

/-- A loop that gets nothing but empty reads runs on. -/
theorem scanLoop_of_stalled (h : p.Wants r)
    (hempty : ∀ k, p.calls ≤ k → reader k p.cursor (r.readSize p.cursor) = .data [])
    (fuel : ℕ) : scanLoop r reader fuel p = none := by
  induction fuel generalizing p with
  | zero => rfl
  | succ fuel ih =>
    rw [scanLoop_of_steps (scanStep_of_empty h (hempty p.calls (Nat.le_refl _)))]
    exact ih h fun k hk => hempty k (Nat.le_of_succ_le hk)

theorem ends_of_steps (h : Steps r reader p q)
    (hends : ∃ fuel, (scanLoop r reader fuel q).isSome = true) :
    ∃ fuel, (scanLoop r reader fuel p).isSome = true := by
  obtain ⟨fuel, hfuel⟩ := hends
  exact ⟨fuel + 1, (scanLoop_of_steps h fuel).symm ▸ hfuel⟩

/-- A loop that does not stall ends: each time it asks, an answer comes that moves the
cursor, and the range is finite. -/
theorem ends_of_not_stalls (hstalls : ¬ Stalls r reader)
    (hp : ReflTransGen (Steps r reader) r.begin p) :
    ∃ fuel, (scanLoop r reader fuel p).isSome = true := by
  induction hrest : r.stop - p.cursor using Nat.strong_induction_on generalizing p with
  | _ rest ih =>
    by_cases hwants : p.Wants r
    · have hanswers : ∃ k, p.calls ≤ k ∧
          reader k p.cursor (r.readSize p.cursor) ≠ .data [] := by
        refine Classical.byContradiction fun hnone => hstalls ⟨p, hp, hwants, fun k hk => ?_⟩
        exact Decidable.not_not.mp fun hanswer => hnone ⟨k, hk, hanswer⟩
      obtain ⟨k, hk, hanswer⟩ := hanswers
      -- Ask until the call `k`; the state changes only in the number of calls.
      induction hwait : k - p.calls generalizing p with
      | zero =>
        obtain rfl : k = p.calls := by omega
        rcases scanStep_of_answer hwants hanswer with ⟨outcome, hends⟩ | ⟨q, hstep, hmoved⟩
        · exact ⟨1, by simp [scanLoop, hends]⟩
        · exact ends_of_steps hstep
            (ih (r.stop - q.cursor) (by have := hwants.1; omega) (hp.tail hstep) rfl)
      | succ wait ihwait =>
        by_cases hempty : reader p.calls p.cursor (r.readSize p.cursor) = .data []
        · have hstep := scanStep_of_empty hwants hempty
          exact ends_of_steps hstep (ihwait (hp.tail hstep) hrest hwants (by simp only; omega)
            hanswer (by simp only; omega))
        · rcases scanStep_of_answer hwants hempty with ⟨outcome, hends⟩ | ⟨q, hstep, hmoved⟩
          · exact ⟨1, by simp [scanLoop, hends]⟩
          · exact ends_of_steps hstep
              (ih (r.stop - q.cursor) (by have := hwants.1; omega) (hp.tail hstep) rfl)
    · exact ⟨1, by simp [scanLoop, scanStep_of_not_wants hwants]⟩

/-- The loop of an empty range does not start. -/
theorem not_stalls_of_stop_le (h : r.stop ≤ r.start) : ¬ Stalls r reader := by
  rintro ⟨p, hp, hwants, -⟩
  have hbegin : ¬ r.begin.Wants r := fun hwants => Nat.not_lt_of_ge h hwants.1
  rcases hp.cases_head with rfl | ⟨q, hstep, -⟩
  · exact hbegin hwants
  · rw [Steps, scanStep_of_not_wants hbegin] at hstep
    exact Sum.inr_ne_inl hstep

/-- The scan of a pattern that is not empty ends exactly if it does not stall. -/
theorem scanMemory_ends_iff (hpattern : r.pattern ≠ []) :
    (∃ fuel, (scanMemory r reader fuel).isSome = true) ↔ ¬ Stalls r reader := by
  by_cases hrange : r.stop ≤ r.start
  · exact iff_of_true ⟨0, by simp [scanMemory, hrange]⟩ (not_stalls_of_stop_le hrange)
  · have hscan : ∀ fuel, scanMemory r reader fuel = scanLoop r reader fuel r.begin :=
      fun fuel => by simp [scanMemory, hpattern, hrange]
    simp only [hscan]
    constructor
    · rintro hends ⟨p, hp, hwants, hempty⟩
      obtain ⟨fuel, hfuel⟩ := ends_of_reflTransGen hp hends
      rw [scanLoop_of_stalled hwants hempty fuel] at hfuel
      exact Bool.noConfusion hfuel
    · exact fun hstalls => ends_of_not_stalls hstalls ReflTransGen.refl

/-- One byte to find in one byte of memory, in chunks of one byte. -/
def oneByte : Request := ⟨[0xAB], 0x08804000, 0x08804001, 1, 1⟩

/-- The first read is empty, the second finds the byte. -/
def lateReader : Reader := fun k _ _ => .data (if k = 0 then [] else [0xAB])

theorem scanMemory_ends_late : ¬ Stalls oneByte lateReader :=
  (scanMemory_ends_iff (by decide)).mp ⟨3, by decide⟩

/-- A reader whose answer carries no bytes keeps the loop at its first address. -/
theorem empty_reads_stall :
    ¬ ∃ fuel, (scanMemory oneByte (fun _ _ _ => .data []) fuel).isSome = true := by
  rintro ⟨fuel, hfuel⟩
  have hwants : oneByte.begin.Wants oneByte := by decide
  have hscan : scanMemory oneByte (fun _ _ _ => .data []) fuel = none :=
    scanLoop_of_stalled hwants (fun _ _ => rfl) fuel
  rw [hscan] at hfuel
  exact Bool.noConfusion hfuel

end Scan
