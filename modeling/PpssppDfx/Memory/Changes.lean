import PpssppDfx.Memory.Diff
import PpssppDfx.Memory.WriteMemory

/-!
# What has changed in memory

A snapshot keeps the bytes of a range, and a comparison reads the range again and reports the bytes
that differ. A range is read in chunks; a chunk that cannot be read counts as zeros, so that it may
show changes that are none.

## Main definitions

* `Diff.readSegments` — the bytes of a range
* `Diff.takeSnapshot`, `Diff.compareMemory` — the two actions
* `Diff.undo`, `Diff.putBack` — the old bytes of a report written back, and what they leave

## Main results

* `Diff.changes_restore` — a report lists the first changes, and one that is not cut off is enough
  to restore what was read
-/

set_option autoImplicit false

namespace Diff

open Python Semantics Memory Scan

/-! ## Reading a range -/

/-- `data[offset : offset + len(raw)] = raw`. -/
def assignSlice (data : List UInt8) (offset : ℕ) (raw : List UInt8) : List UInt8 :=
  data.take offset ++ raw ++ data.drop (offset + raw.length)

/-- `range(0, size, MAX_SINGLE_READ_BYTES)`. -/
def chunkOffsets (size : ℕ) : List ℕ :=
  (List.range ((size + maxSingleReadBytes - 1) / maxSingleReadBytes)).map (· * maxSingleReadBytes)

/-- The length of the chunk at an offset. -/
def chunkSize (size offset : ℕ) : ℕ := min maxSingleReadBytes (size - offset)

/-- A chunk that is read takes its place; one that is not leaves the zeros there. -/
def readSegment (call : MemoryRead) (start size : ℕ) (data : List UInt8) (offset : ℕ) :
    List UInt8 :=
  match readBytes call (start + offset) (chunkSize size offset) with
  | .ok raw => assignSlice data offset raw
  | .error _ => data

/-- `_read_segments`. -/
def readSegments (call : MemoryRead) (start size : ℕ) : List UInt8 :=
  (chunkOffsets size).foldl (readSegment call start size) (List.replicate size 0)

/-! ## The actions -/

def maxSnapshotBytes : ℕ := 8 * 1024 * 1024

/-- The arguments that give a range. -/
structure RangeArguments where
  start : Option String
  stop : Option String
  address : Option String
  size : Option ℤ

def rangeNeeded : String :=
  "action='snapshot' needs a range, given either as start+end (e.g. start='0x09000000', " ++
    "end='0x09000040') or as address+size (e.g. address='0x09000000', size=64)"

/-- `hex(value)`. -/
def hexOf (value : ℤ) : String :=
  if value < 0 then "-0x" ++ String.ofList (Nat.toDigits 16 value.natAbs)
  else "0x" ++ String.ofList (Nat.toDigits 16 value.natAbs)

/-- The two ends of a range, as texts. -/
def rangeTexts (args : RangeArguments) : Except String (String × String) :=
  if (args.start.isSome ∨ args.stop.isSome) ∧ (args.address.isSome ∨ args.size.isSome) then
    .error "action='snapshot' accepts ONE range form — either start+end or address+size, not both"
  else
    match args.start, args.stop, args.address, args.size with
    | some start, some stop, _, _ => .ok (start, stop)
    | none, none, some address, some size => do
      if size ≤ 0 then
        .error ("size must be > 0 (got " ++ toString size ++ ") when using address+size")
      else
        let a ← parseAddress (.str address)
        .ok (address, hexOf (a + size))
    | _, _, _, _ => .error rangeNeeded

/-- `repr` of an argument that may be missing. -/
def reprOption : Option String → String
  | none => "None"
  | some s => strRepr s

/-- The start and the length of a range. -/
def rangeOf (args : RangeArguments) : Except String (ℕ × ℕ) := do
  let (startText, stopText) ← rangeTexts args
  let start ← parseAddress (.str startText)
  let stop ← parseAddress (.str stopText)
  if start ≤ 0 ∨ stop ≤ start then
    .error ("invalid range: start=" ++ reprOption args.start ++ " end=" ++ reprOption args.stop ++
      " — need 0 < start < end")
  else if maxSnapshotBytes < stop - start then
    .error ("range size " ++ toString (stop - start) ++ " bytes exceeds the per-snapshot cap " ++
      toString maxSnapshotBytes ++ " — narrow start/end")
  else .ok (start.toNat, (stop - start).toNat)

/-- The action `snapshot`, under a new handle. -/
def takeSnapshot (call : MemoryRead) (t : Snapshots) (sessionId handle : String)
    (args : RangeArguments) : Except String Snapshots := do
  let (start, size) ← rangeOf args
  .ok (t.store handle ⟨start, readSegments call start size, sessionId⟩)

/-- The action `compare`, with the reads that it makes. -/
def compareMemory (call : MemoryRead) (t : Snapshots) (sessionId handle : String) :
    Except String DiffCompareResult :=
  compare t sessionId handle
    (match t.get handle with
    | some snapshot => readSegments call snapshot.start snapshot.data.length
    | none => [])

/-! ## What is read of a range -/

section Segments

variable {call : MemoryRead} {mem : ℤ → UInt8} {start size : ℕ}

/-- The chunk of an address is answered. -/
def Answered (call : MemoryRead) (start size x : ℕ) : Prop :=
  let offset := (x - start) / maxSingleReadBytes * maxSingleReadBytes
  (call (start + offset) (chunkSize size offset)).isSome = true

instance (x : ℕ) : Decidable (Answered call start size x) :=
  inferInstanceAs (Decidable (Option.isSome _ = true))

/-- What is seen of a byte: nothing of a chunk that is not answered. -/
def seen (call : MemoryRead) (start size : ℕ) (mem : ℤ → UInt8) (x : ℕ) : UInt8 :=
  if Answered call start size x then mem x else 0

/-- The chunk of an address is the one that begins at its offset. -/
theorem answered_iff {k x : ℕ} (hlo : start + k * maxSingleReadBytes ≤ x)
    (hhi : x < start + (k + 1) * maxSingleReadBytes) :
    Answered call start size x ↔ (call (start + k * maxSingleReadBytes)
      (chunkSize size (k * maxSingleReadBytes))).isSome = true := by
  have hdiv : (x - start) / maxSingleReadBytes = k := by
    apply Nat.div_eq_of_lt_le
    · omega
    · omega
  rw [Answered, hdiv]

theorem assignSlice_append {front zeros raw : List UInt8} {offset : ℕ}
    (hoffset : front.length = offset) :
    assignSlice (front ++ zeros) offset raw = front ++ raw ++ zeros.drop raw.length := by
  subst hoffset
  rw [assignSlice, List.take_left', List.drop_append]
  · simp
  · rfl

/-- A chunk that is read, or not, behind the bytes in front of it. -/
theorem readSegment_append (hanswers : Answers (fun n => mem n) call) {k : ℕ} {front : List UInt8}
    (hfront : front.length = k * maxSingleReadBytes) :
    readSegment call start size
        (front ++ List.replicate (size - k * maxSingleReadBytes) 0) (k * maxSingleReadBytes) =
      front ++ slice (seen call start size mem) (start + k * maxSingleReadBytes)
          (chunkSize size (k * maxSingleReadBytes)) ++
        List.replicate (size - (k + 1) * maxSingleReadBytes) 0 := by
  have hshort : chunkSize size (k * maxSingleReadBytes) ≤ maxSingleReadBytes := Nat.min_le_left _ _
  have hnext : (k + 1) * maxSingleReadBytes = k * maxSingleReadBytes + maxSingleReadBytes :=
    Nat.succ_mul _ _
  have hrest : size - k * maxSingleReadBytes - chunkSize size (k * maxSingleReadBytes) =
      size - (k + 1) * maxSingleReadBytes := by
    rw [chunkSize]
    omega
  have hchunk (x : ℕ) (hx : x ∈ List.range' (start + k * maxSingleReadBytes)
      (chunkSize size (k * maxSingleReadBytes))) :
      Answered call start size x ↔ (call (start + k * maxSingleReadBytes)
        (chunkSize size (k * maxSingleReadBytes))).isSome = true := by
    obtain ⟨hlo, hhi⟩ := List.mem_range'_1.mp hx
    exact answered_iff hlo (by omega)
  rw [readSegment, readBytes_of_answers hanswers hshort]
  by_cases hread : (call (start + k * maxSingleReadBytes)
      (chunkSize size (k * maxSingleReadBytes))).isSome = true
  · have hseen : slice (seen call start size mem) (start + k * maxSingleReadBytes)
        (chunkSize size (k * maxSingleReadBytes)) =
          slice (fun n => mem n) (start + k * maxSingleReadBytes)
            (chunkSize size (k * maxSingleReadBytes)) :=
      List.map_congr_left fun x hx => if_pos ((hchunk x hx).mpr hread)
    simp only [if_pos hread]
    rw [assignSlice_append hfront, length_slice, List.drop_replicate, hseen, hrest]
  · have hseen : slice (seen call start size mem) (start + k * maxSingleReadBytes)
        (chunkSize size (k * maxSingleReadBytes)) =
          List.replicate (chunkSize size (k * maxSingleReadBytes)) 0 := by
      refine List.eq_replicate_iff.mpr ⟨length_slice, fun b hb => ?_⟩
      obtain ⟨x, hx, rfl⟩ := List.mem_map.mp hb
      exact if_neg fun hanswered => hread ((hchunk x hx).mp hanswered)
    have hsplit : chunkSize size (k * maxSingleReadBytes) +
        (size - (k + 1) * maxSingleReadBytes) = size - k * maxSingleReadBytes := by
      rw [← hrest, chunkSize]
      omega
    simp only [if_neg hread]
    rw [hseen, List.append_assoc, List.replicate_append_replicate, hsplit]

/-- So much of the range has been read after some chunks. -/
theorem foldl_readSegment (hanswers : Answers (fun n => mem n) call) (k : ℕ)
    (hk : ∀ i < k, i * maxSingleReadBytes ≤ size) :
    ((List.range k).map (· * maxSingleReadBytes)).foldl (readSegment call start size)
        (List.replicate size 0) =
      slice (seen call start size mem) start (min (k * maxSingleReadBytes) size) ++
        List.replicate (size - k * maxSingleReadBytes) 0 := by
  induction k with
  | zero => simp [slice]
  | succ k ih =>
    have hle := hk k (Nat.lt_succ_self k)
    have hfront : (slice (seen call start size mem) start
        (min (k * maxSingleReadBytes) size)).length = k * maxSingleReadBytes := by
      rw [length_slice, Nat.min_eq_left hle]
    have hmin : min ((k + 1) * maxSingleReadBytes) size =
        k * maxSingleReadBytes + chunkSize size (k * maxSingleReadBytes) := by
      rw [chunkSize, Nat.succ_mul]
      omega
    rw [List.range_succ, List.map_append, List.foldl_append,
      ih fun i hi => hk i (Nat.lt_succ_of_lt hi), List.map_singleton, List.foldl_cons,
      List.foldl_nil, readSegment_append hanswers hfront, hmin, ← slice_append,
      Nat.min_eq_left hle]

theorem readSegments_eq (hanswers : Answers (fun n => mem n) call) :
    readSegments call start size = slice (seen call start size mem) start size := by
  have hpos : 0 < maxSingleReadBytes := by decide
  have hcount : size ≤ (size + maxSingleReadBytes - 1) / maxSingleReadBytes *
      maxSingleReadBytes := by
    have hmod := Nat.div_add_mod (size + maxSingleReadBytes - 1) maxSingleReadBytes
    have hlt := Nat.mod_lt (size + maxSingleReadBytes - 1) hpos
    rw [Nat.mul_comm] at hmod
    omega
  have hbefore : ∀ i < (size + maxSingleReadBytes - 1) / maxSingleReadBytes,
      i * maxSingleReadBytes ≤ size := by
    intro i hi
    have hle := (Nat.le_div_iff_mul_le hpos).mp (Nat.succ_le_of_lt hi)
    rw [Nat.succ_mul] at hle
    omega
  rw [readSegments, chunkOffsets, foldl_readSegment hanswers _ hbefore, Nat.min_eq_right hcount,
    Nat.sub_eq_zero_of_le hcount, List.replicate_zero, List.append_nil]

end Segments

/-! ## Going back -/

/-- The old bytes of the changes written back. -/
def undo (memory : ℤ → UInt8) (changes : List DiffChange) : ℤ → UInt8 :=
  changes.foldl (fun m c => overwrite m c.address [c.old]) memory

section Undo

variable {f g : ℕ → UInt8} {m : ℤ → UInt8} {xs : List ℕ} {x : ℕ} {z : ℤ}

/-- The changes of some addresses. -/
def changesAt (f g : ℕ → UInt8) (xs : List ℕ) : List DiffChange :=
  xs.map fun x => ⟨x, f x, g x⟩

/-- The changes of a range are those of the addresses that differ. -/
theorem allChanges_slice (f g : ℕ → UInt8) (a n : ℕ) :
    allChanges a ((slice f a n).zip (slice g a n)) =
      changesAt f g ((List.range' a n).filter fun x => f x ≠ g x) := by
  induction n generalizing a with
  | zero => rfl
  | succ n ih =>
    rw [slice_succ, slice_succ, List.zip_cons_cons, allChanges, ih, List.range'_succ]
    by_cases hsame : f a = g a
    · rw [if_pos hsame, List.filter_cons_of_neg (by simpa using hsame)]
    · rw [if_neg hsame, List.filter_cons_of_pos (by simpa using hsame)]
      rfl

theorem undo_of_forall_ne (h : ∀ x ∈ xs, (x : ℤ) ≠ z) : undo m (changesAt f g xs) z = m z := by
  induction xs generalizing m with
  | nil => rfl
  | cons y xs ih =>
    have hy := h y List.mem_cons_self
    show undo (overwrite m y [f y]) (changesAt f g xs) z = m z
    refine (ih fun x hx => h x (List.mem_cons_of_mem _ hx)).trans (overwrite_of_not_mem ?_)
    simp only [List.length_singleton]
    omega

/-- Nothing behind a change writes to its address again. -/
theorem undo_of_mem (h : x ∈ xs) : undo m (changesAt f g xs) x = f x := by
  induction xs generalizing m with
  | nil => cases h
  | cons y xs ih =>
    by_cases hx : x ∈ xs
    · exact ih hx
    · obtain rfl := (List.mem_cons.mp h).resolve_right hx
      show undo (overwrite m x [f x]) (changesAt f g xs) x = f x
      have hlater : ∀ y ∈ xs, (y : ℤ) ≠ x := fun y hy heq => hx (Int.natCast_inj.mp heq ▸ hy)
      rw [undo_of_forall_ne hlater]
      simp [overwrite]

end Undo

section Restore

variable {call₀ call₁ : MemoryRead} {mem₀ mem₁ : ℤ → UInt8} {t t₁ t₂ : Snapshots}
  {sessionId handle : String} {args : RangeArguments} {result : DiffCompareResult}

/-- The entry of a snapshot that was taken. -/
theorem get_of_takeSnapshot (h : takeSnapshot call₀ t sessionId handle args = .ok t₁) :
    ∃ start size, rangeOf args = .ok (start, size) ∧
      t₁.get handle = some ⟨start, readSegments call₀ start size, sessionId⟩ := by
  obtain ⟨⟨start, size⟩, hrange, h⟩ := ok_of_bind h
  obtain rfl := Except.ok.inj h
  exact ⟨start, size, hrange, lookup_insertEvicting_self⟩

/-- A comparison that succeeds is one of the bytes that are seen. -/
theorem result_of_compare (hanswers₀ : Answers (fun n => mem₀ n) call₀)
    (hanswers₁ : Answers (fun n => mem₁ n) call₁) {start size : ℕ}
    (hget : t.get handle = some ⟨start, readSegments call₀ start size, sessionId⟩)
    (h : compareMemory call₁ t sessionId handle = .ok result) :
    result = summary (changesAt (seen call₀ start size mem₀) (seen call₁ start size mem₁)
      ((List.range' start size).filter fun x =>
        seen call₀ start size mem₀ x ≠ seen call₁ start size mem₁ x)) := by
  rw [compareMemory, compare, hget] at h
  split_ifs at h with hhandle
  simp only [readSegments_eq hanswers₀, length_slice, readSegments_eq hanswers₁, ne_eq,
    not_true_eq_false, if_false] at h
  rw [← Except.ok.inj h, changesFrom_eq, allChanges_slice]

/-- What the old bytes, written back, leave at an address of the range. A byte that was read both
times is as it was; one that only the snapshot read is, too, unless it was zero; one that only the
comparison read becomes zero; one that was never read is left alone. -/
def putBack (call₀ call₁ : MemoryRead) (start size : ℕ) (mem₀ mem₁ : ℤ → UInt8) (x : ℕ) : UInt8 :=
  if Answered call₀ start size x then
    if Answered call₁ start size x ∨ mem₀ x ≠ 0 then mem₀ x else mem₁ x
  else if Answered call₁ start size x then 0
  else mem₁ x

theorem putBack_eq {start size x : ℕ} :
    putBack call₀ call₁ start size mem₀ mem₁ x =
      if seen call₀ start size mem₀ x ≠ seen call₁ start size mem₁ x then
        seen call₀ start size mem₀ x
      else mem₁ x := by
  unfold putBack seen
  by_cases hread₀ : Answered call₀ start size x
  · by_cases hread₁ : Answered call₁ start size x
    · by_cases hsame : mem₀ x = mem₁ x <;> simp [hread₀, hread₁, hsame]
    · simp [hread₀, hread₁]
  · by_cases hread₁ : Answered call₁ start size x
    · by_cases hzero : (0 : UInt8) = mem₁ x <;> simp [hread₀, hread₁, hzero]
    · simp [hread₀, hread₁]

/-- A comparison counts the addresses whose bytes are seen to differ, and lists the first of them
with both bytes. A report that is not cut off is enough to go back: the old bytes, written back,
restore what was read both times and touch nothing outside of the range. -/
theorem changes_restore (hanswers₀ : Answers (fun n => mem₀ n) call₀)
    (hanswers₁ : Answers (fun n => mem₁ n) call₁)
    (hsnapshot : takeSnapshot call₀ t sessionId handle args = .ok t₁)
    (hkept : t₂.get handle = t₁.get handle)
    (hcompare : compareMemory call₁ t₂ sessionId handle = .ok result) :
    ∃ start size, rangeOf args = .ok (start, size) ∧
      (let old := seen call₀ start size mem₀
        let new := seen call₁ start size mem₁
        let differ := (List.range' start size).filter fun x => old x ≠ new x
        result.changedCount = differ.length ∧
          result.truncated = decide (maxChangesInline < differ.length) ∧
          result.changes = changesAt old new (differ.take maxChangesInline)) ∧
      (result.truncated = false →
        (∀ x, start ≤ x → x < start + size →
          undo mem₁ result.changes x = putBack call₀ call₁ start size mem₀ mem₁ x ∧
            (Answered call₀ start size x → Answered call₁ start size x →
              undo mem₁ result.changes x = mem₀ x)) ∧
        ∀ z : ℤ, z < start ∨ start + size ≤ z → undo mem₁ result.changes z = mem₁ z) := by
  obtain ⟨start, size, hrange, hget⟩ := get_of_takeSnapshot hsnapshot
  obtain rfl := result_of_compare hanswers₀ hanswers₁ (hkept.trans hget) hcompare
  refine ⟨start, size, hrange, ⟨List.length_map _, ?_, ?_⟩, fun htruncated => ?_⟩
  · simp only [summary, changesAt, List.length_map]
  · exact List.map_take.symm
  · have hall : (changesAt (seen call₀ start size mem₀) (seen call₁ start size mem₁)
        ((List.range' start size).filter fun x =>
          seen call₀ start size mem₀ x ≠ seen call₁ start size mem₁ x)).length ≤
          maxChangesInline := by
      simpa [summary] using htruncated
    simp only [summary, List.take_of_length_le hall]
    constructor
    · intro x hlo hhi
      have hback : undo mem₁ (changesAt (seen call₀ start size mem₀) (seen call₁ start size mem₁)
          ((List.range' start size).filter fun x =>
            seen call₀ start size mem₀ x ≠ seen call₁ start size mem₁ x)) x =
          putBack call₀ call₁ start size mem₀ mem₁ x := by
        rw [putBack_eq]
        split
        · rename_i hdiffer
          refine undo_of_mem (List.mem_filter.mpr ⟨List.mem_range'_1.mpr ⟨hlo, hhi⟩, ?_⟩)
          exact decide_eq_true hdiffer
        · rename_i hsame
          refine undo_of_forall_ne fun y hy heq => ?_
          obtain rfl := Int.natCast_inj.mp heq
          exact hsame (of_decide_eq_true (List.mem_filter.mp hy).2)
      refine ⟨hback, fun hread₀ hread₁ => ?_⟩
      rw [hback, putBack, if_pos hread₀, if_pos (.inl hread₁)]
    · intro z hz
      refine undo_of_forall_ne fun x hx heq => ?_
      obtain ⟨hlo, hhi⟩ := List.mem_range'_1.mp (List.mem_filter.mp hx).1
      omega

/-- A memory with the greeting, and one where two of its bytes have been written over. -/
def greetingMemory (n : ℤ) : UInt8 := greeting n.toNat

def writtenOver : ℤ → UInt8 := overwrite greetingMemory 0x101 [0x65, 0x79]

theorem changes_restore_greeting :
    undo writtenOver [⟨0x101, 0xC3, 0x65⟩, ⟨0x102, 0xA9, 0x79⟩] 0x102 = greetingMemory 0x102 := by
  have hsnapshot : takeSnapshot (answering fun n => greetingMemory n) noSnapshots "s1" "h1"
      ⟨some "0x100", some "0x108", none, none⟩ = .ok (noSnapshots.store "h1"
        ⟨0x100, readSegments (answering fun n => greetingMemory n) 0x100 8, "s1"⟩) := rfl
  have hcompare : compareMemory (answering fun n => writtenOver n) (noSnapshots.store "h1"
      ⟨0x100, readSegments (answering fun n => greetingMemory n) 0x100 8, "s1"⟩) "s1" "h1" =
        .ok ⟨2, false, [⟨0x101, 0xC3, 0x65⟩, ⟨0x102, 0xA9, 0x79⟩]⟩ := rfl
  obtain ⟨start, size, hrange, -, hback⟩ := changes_restore
    (answers_answering fun n => greetingMemory n) (answers_answering fun n => writtenOver n)
    hsnapshot rfl hcompare
  obtain ⟨rfl, rfl⟩ : 0x100 = start ∧ 8 = size := Prod.mk.inj (Except.ok.inj hrange)
  exact ((hback rfl).1 0x102 (by decide) (by decide)).2 rfl rfl

end Restore

end Diff
