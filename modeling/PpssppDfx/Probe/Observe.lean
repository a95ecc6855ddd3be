import Mathlib.Data.List.NodupEquivFin
import Mathlib.Data.List.Sort
import Mathlib.Data.List.Range
import PpssppDfx.Scan.Runs
import PpssppDfx.Semantics.Updates

/-!
# Observing probes

A probe is a named address that is read as an integer of one, two or four bytes. Each sample
of an observation sorts the probes by address, reads the runs of close ones as blocks and
cuts the values out of them; a probe on its own, and a run whose block could not be read in
full, is read probe by probe. A probe that fails is not sampled again, and keeps the last
value that it had.

## Main definitions

* `Probe.observeProbes` — `_observe_probes`
* `Probe.observeSeparately` — every probe read on its own in every sample
* `Probe.Reader.Consistent` — within a sample a block and the points inside it agree

## Main results

* `observeProbes_eq_observeSeparately` — over a consistent reader both report the same
-/

set_option autoImplicit false

namespace Probe

open Semantics Python Scan Function

/-! ## Probes and readers -/

structure StateProbe where
  name : String
  address : ℕ
  size : ℕ

/-- An exception: its text and the name of its class. -/
structure Failure where
  text : String
  className : String

/-- `str(e) or e.__class__.__name__`. -/
def Failure.message (e : Failure) : String := if e.text = "" then e.className else e.text

/-- What reads yield in a sample. -/
structure Reader where
  /-- `read_u8`, `read_u16` and `read_u32`, by the size. -/
  point : ℕ → ℕ → ℕ → Except Failure ℤ
  /-- `read_bytes`: `none` if it raises. -/
  block : ℕ → ℕ → ℕ → Option Bytes

/-- A block that is yielded in full holds the bytes of every point inside it, and these can
be read. -/
def Reader.Consistent (reader : Reader) : Prop :=
  ∀ sample start span blob, reader.block sample start span = some blob → span ≤ blob.length →
    ∀ a n, n = 1 ∨ n = 2 ∨ n = 4 → start ≤ a → a + n ≤ start + span →
      reader.point sample a n = .ok (littleEndian ((blob.drop (a - start)).take n))

/-- `_read_method` and the call of what it picks. -/
def Reader.read (reader : Reader) (sample size address : ℕ) : Except Failure ℤ :=
  if size = 1 ∨ size = 2 ∨ size = 4 then reader.point sample address size
  else .error ⟨"invalid size=" ++ toString size ++ "; expected one of (1, 2, 4)", "ArgsInvalid"⟩

/-! ## Samples -/

/-- What is known of a probe: an error also ends its sampling. -/
structure Slot where
  value : ℤ
  error : String
  active : Bool
  deriving DecidableEq

def Slot.record (slot : Slot) : Except Failure ℤ → Slot
  | .ok value => { slot with value := value }
  | .error e => { slot with error := e.message, active := false }

/-- The slots by the position of their probe. -/
abbrev Slots := ℕ → Slot

def freshSlots : Slots := fun _ => ⟨0, "", true⟩

/-- A probe that is to be sampled, and its position. -/
structure Target where
  address : ℕ
  size : ℕ
  index : ℕ

/-- The probes that are sampled, sorted by their address. -/
def targets (probes : List StateProbe) (slots : Slots) : List Target :=
  ((probes.zipIdx.filter fun p => (slots p.2).active).map fun p =>
    ⟨p.1.address, p.1.size, p.2⟩).insertionSort fun s t => s.address ≤ t.address

/-- The size of the widest probe. -/
def mergeSize (probes : List StateProbe) : ℕ := ((probes.map (·.size)).max?).getD 1

/-- A probe is read on its own. -/
def readTarget (reader : Reader) (sample : ℕ) : Slots → Target → Slots :=
  rewriteAt Target.index fun t slot => slot.record (reader.read sample t.size t.address)

/-- The value of a probe is cut out of a block. -/
def cutTarget (start : ℕ) (blob : Bytes) : Slots → Target → Slots :=
  rewriteAt Target.index fun t slot =>
    { slot with value := littleEndian ((blob.drop (t.address - start)).take t.size) }

/-- One run of a sample. -/
def observeRun (reader : Reader) (sample : ℕ) (slots : Slots) (run : Run) (members : List Target) :
    Slots :=
  match members with
  | [t] => readTarget reader sample slots t
  | members =>
    let blob := (reader.block sample run.start run.span.toNat).getD []
    if (blob.length : ℤ) < run.span then members.foldl (readTarget reader sample) slots
    else members.foldl (cutTarget run.start blob) slots

/-- The runs of a sample; each takes as many targets as it has members. -/
def observeRuns (reader : Reader) (sample : ℕ) : List Run → List Target → Slots → Slots
  | [], _, slots => slots
  | run :: runs, ts, slots =>
    observeRuns reader sample runs (ts.drop run.members.length)
      (observeRun reader sample slots run (ts.take run.members.length))

/-- The loop over the samples; it ends when there is nothing left to sample. -/
def observeSamples (reader : Reader) (probes : List StateProbe) : List ℕ → Slots → Slots
  | [], slots => slots
  | sample :: samples, slots =>
    let ts := targets probes slots
    if ts.isEmpty then slots
    else
      observeSamples reader probes samples
        (observeRuns reader sample (mergeRuns (ts.map (·.address)) (mergeSize probes)) ts slots)

/-! ## Results -/

structure ProbeObservation where
  name : String
  address : ℕ
  size : ℕ
  value : ℤ
  error : String
  deriving DecidableEq

structure ObservationResult where
  observations : List ProbeObservation
  count : ℕ
  successCount : ℕ
  failureCount : ℕ
  deriving DecidableEq

def observationResult (probes : List StateProbe) (slots : Slots) : ObservationResult :=
  let observations := probes.zipIdx.map fun p =>
    ⟨p.1.name, p.1.address, p.1.size, (slots p.2).value, (slots p.2).error⟩
  let success := observations.countP fun o => o.error = ""
  ⟨observations, observations.length, success, observations.length - success⟩

/-- `_observe_probes`. -/
def observeProbes (reader : Reader) (probes : List StateProbe) (samples : ℤ) : ObservationResult :=
  observationResult probes (observeSamples reader probes (List.range samples.toNat) freshSlots)

/-- One probe in one sample, on its own. -/
def Slot.observe (reader : Reader) (p : StateProbe) (slot : Slot) (sample : ℕ) : Slot :=
  if slot.active then slot.record (reader.read sample p.size p.address) else slot

/-- Every probe is read on its own in every sample. -/
def observeSeparately (reader : Reader) (probes : List StateProbe) (samples : ℤ) :
    ObservationResult :=
  let observations := probes.map fun p =>
    let slot := (List.range samples.toNat).foldl (Slot.observe reader p) ⟨0, "", true⟩
    ⟨p.name, p.address, p.size, slot.value, slot.error⟩
  let success := observations.countP fun o => o.error = ""
  ⟨observations, observations.length, success, observations.length - success⟩

/-! ## Targets -/

section Targets

variable {probes : List StateProbe} {slots : Slots} {t : Target}

theorem mem_targets : t ∈ targets probes slots ↔
    ∃ p, probes[t.index]? = some p ∧ (slots t.index).active = true ∧
      t.address = p.address ∧ t.size = p.size := by
  rw [targets, List.mem_insertionSort, List.mem_map]
  simp only [List.mem_filter, List.mem_zipIdx_iff_getElem?]
  constructor
  · rintro ⟨⟨p, i⟩, ⟨hp, hactive⟩, rfl⟩
    exact ⟨p, hp, hactive, rfl, rfl⟩
  · rintro ⟨p, hp, hactive, haddress, hsize⟩
    exact ⟨(p, t.index), ⟨hp, hactive⟩, by rw [← haddress, ← hsize]⟩

theorem nodup_targets (probes : List StateProbe) (slots : Slots) :
    ((targets probes slots).map Target.index).Nodup := by
  have hperm := (List.perm_insertionSort (fun s t : Target => s.address ≤ t.address)
    ((probes.zipIdx.filter fun p => (slots p.2).active).map fun p =>
      (⟨p.1.address, p.1.size, p.2⟩ : Target))).map Target.index
  refine hperm.nodup_iff.mpr ?_
  rw [List.map_map]
  -- sorting and filtering keep the positions, and each was given out once
  have hindex : (probes.zipIdx.map Prod.snd).Nodup := by
    rw [List.zipIdx_map_snd]
    exact List.nodup_range'
  exact (List.filter_sublist.map Prod.snd).nodup hindex

theorem ascending_targets (probes : List StateProbe) (slots : Slots) :
    ((targets probes slots).map (·.address)).Pairwise (· ≤ ·) := by
  have htotal : Std.Total fun s t : Target => s.address ≤ t.address :=
    ⟨fun s t => Nat.le_total s.address t.address⟩
  have htrans : IsTrans Target fun s t => s.address ≤ t.address :=
    ⟨fun _ _ _ => Nat.le_trans⟩
  exact List.pairwise_map.mpr (List.pairwise_insertionSort _ _)

end Targets

/-! ## One sample -/

section Sample

variable {reader : Reader} {probes : List StateProbe} {slots : Slots} {sample width : ℕ}
  {run : Run} {ts : List Target} {t : Target}

/-- A target of a size that can be read. -/
def Target.Readable (t : Target) (width : ℕ) : Prop :=
  (t.size = 1 ∨ t.size = 2 ∨ t.size = 4) ∧ t.size ≤ width

/-- What is cut out of a full block is what a read of the probe yields. -/
theorem cutTarget_eq (hreader : reader.Consistent) (hcovers : run.Covers width)
    (hmem : t.address ∈ run.members) (ht : t.Readable width)
    (hfull : ¬ ((((reader.block sample run.start run.span.toNat).getD []).length : ℕ) : ℤ) <
      run.span) :
    cutTarget run.start ((reader.block sample run.start run.span.toNat).getD []) slots t =
      readTarget reader sample slots t := by
  obtain ⟨hsize, hwidth⟩ := ht
  have hstart := hcovers.start_le t.address hmem
  have hfits := hcovers.fits t.address hmem
  cases hblock : reader.block sample run.start run.span.toNat with
  | none =>
    -- a read that raises counts as empty, and the run is not
    rw [hblock, Option.getD_none, List.length_nil] at hfull
    omega
  | some blob =>
    rw [hblock, Option.getD_some] at hfull
    have hread := hreader sample run.start run.span.toNat blob hblock (by omega) t.address t.size
      hsize hstart (by omega)
    rw [Option.getD_some, cutTarget, readTarget, rewriteAt, rewriteAt, Reader.read, if_pos hsize,
      hread]
    rfl

/-- Each run is read as its probes on their own would be. -/
theorem observeRun_eq (hreader : reader.Consistent) (hcovers : run.Covers width)
    (hmembers : ts.map (·.address) = run.members) (hts : ∀ t ∈ ts, t.Readable width) :
    observeRun reader sample slots run ts = ts.foldl (readTarget reader sample) slots := by
  unfold observeRun
  split
  · rfl
  · dsimp only
    split
    · rfl
    · -- only a block that is yielded in full is cut up
      rename_i hfull
      refine List.foldl_ext _ _ _ fun slots t ht => ?_
      exact cutTarget_eq hreader hcovers (hmembers ▸ List.mem_map_of_mem ht) (hts t ht) hfull

theorem observeRuns_eq (hreader : reader.Consistent) {runs : List Run}
    (hcovers : ∀ run ∈ runs, run.Covers width)
    (hmembers : ts.map (·.address) = runs.flatMap (·.members))
    (hts : ∀ t ∈ ts, t.Readable width) :
    observeRuns reader sample runs ts slots = ts.foldl (readTarget reader sample) slots := by
  induction runs generalizing ts slots with
  | nil =>
    obtain rfl : ts = [] := List.map_eq_nil_iff.mp hmembers
    rfl
  | cons run runs ih =>
    -- the targets are sorted as the members of the runs are, so the first ones are its own
    rw [List.flatMap_cons] at hmembers
    have hhead : (ts.take run.members.length).map (·.address) = run.members := by
      rw [List.map_take, hmembers, List.take_left]
    have htail : (ts.drop run.members.length).map (·.address) = runs.flatMap (·.members) := by
      rw [List.map_drop, hmembers, List.drop_left]
    rw [observeRuns, ih (fun r hr => hcovers r (List.mem_cons_of_mem _ hr)) htail
        fun t ht => hts t (List.mem_of_mem_drop ht),
      observeRun_eq hreader (hcovers run List.mem_cons_self) hhead
        fun t ht => hts t (List.mem_of_mem_take ht),
      ← List.foldl_append, List.take_append_drop]

theorem readable_of_mem_targets (hsizes : ∀ p ∈ probes, p.size = 1 ∨ p.size = 2 ∨ p.size = 4)
    (ht : t ∈ targets probes slots) : t.Readable (mergeSize probes) := by
  obtain ⟨p, hp, -, -, hsize⟩ := mem_targets.mp ht
  have hmem : p ∈ probes := List.mem_of_getElem? hp
  refine ⟨hsize ▸ hsizes p hmem, ?_⟩
  have hwidest : p.size ∈ probes.map (·.size) := List.mem_map_of_mem hmem
  cases hmax : (probes.map (·.size)).max? with
  | none => rw [List.max?_eq_none_iff.mp hmax] at hwidest; exact absurd hwidest List.not_mem_nil
  | some width =>
    rw [mergeSize, hmax, hsize]
    exact (List.max?_eq_some_iff.mp hmax).2 _ hwidest

/-- A sample reads every probe that is still sampled once, and leaves the others. -/
theorem observeRuns_targets (hreader : reader.Consistent)
    (hsizes : ∀ p ∈ probes, p.size = 1 ∨ p.size = 2 ∨ p.size = 4) {p : StateProbe} {i : ℕ}
    (hp : probes[i]? = some p) :
    observeRuns reader sample
        (mergeRuns ((targets probes slots).map (·.address)) (mergeSize probes))
        (targets probes slots) slots i = (slots i).observe reader p sample := by
  rw [observeRuns_eq hreader (covers_mergeRuns (ascending_targets probes slots))
    (members_mergeRuns _ _).symm fun t ht => readable_of_mem_targets hsizes ht, readTarget]
  by_cases hactive : (slots i).active = true
  · have hmem : (⟨p.address, p.size, i⟩ : Target) ∈ targets probes slots :=
      mem_targets.mpr ⟨p, hp, hactive, rfl, rfl⟩
    rw [foldl_rewriteAt_of_mem (nodup_targets probes slots) slots hmem, Slot.observe, if_pos hactive]
  · have hnot : i ∉ (targets probes slots).map Target.index := fun hmem => by
      obtain ⟨t, ht, rfl⟩ := List.mem_map.mp hmem
      exact hactive (mem_targets.mp ht).choose_spec.2.1
    rw [foldl_rewriteAt_of_notMem slots hnot, Slot.observe, if_neg hactive]

end Sample

/-! ## Observations -/

section Observation

variable {reader : Reader} {probes : List StateProbe} {slots : Slots} {samples : List ℕ}

/-- A probe that has failed stays as it is. -/
theorem foldl_observe_of_inactive (p : StateProbe) {slot : Slot} (h : slot.active = false) :
    samples.foldl (Slot.observe reader p) slot = slot := by
  induction samples with
  | nil => rfl
  | cons sample samples ih =>
    have hstays : slot.observe reader p sample = slot := by rw [Slot.observe, h]; rfl
    rw [List.foldl_cons, hstays, ih]

/-- After any samples a probe has the value and the error of reads on its own. -/
theorem observeSamples_eq (hreader : reader.Consistent)
    (hsizes : ∀ p ∈ probes, p.size = 1 ∨ p.size = 2 ∨ p.size = 4) {p : StateProbe} {i : ℕ}
    (hp : probes[i]? = some p) :
    observeSamples reader probes samples slots i =
      samples.foldl (Slot.observe reader p) (slots i) := by
  induction samples generalizing slots with
  | nil => rfl
  | cons sample samples ih =>
    rw [observeSamples]
    split
    · -- nothing is left to sample, so this probe has failed
      rename_i hnone
      have hinactive : (slots i).active = false := by
        by_contra hactive
        have hmem : (⟨p.address, p.size, i⟩ : Target) ∈ targets probes slots :=
          mem_targets.mpr ⟨p, hp, by simpa using hactive, rfl, rfl⟩
        rw [List.isEmpty_iff.mp hnone] at hmem
        exact absurd hmem List.not_mem_nil
      exact (foldl_observe_of_inactive p hinactive).symm
    · rw [ih, observeRuns_targets hreader hsizes hp, List.foldl_cons]

/-- Over a consistent reader the merged reads report the values, the errors, their numbers
and the order that reads of every probe on its own in every sample report. -/
theorem observeProbes_eq_observeSeparately (hreader : reader.Consistent)
    (hsizes : ∀ p ∈ probes, p.size = 1 ∨ p.size = 2 ∨ p.size = 4) (samples : ℤ) :
    observeProbes reader probes samples = observeSeparately reader probes samples := by
  have hslots : (probes.zipIdx.map fun p =>
      (⟨p.1.name, p.1.address, p.1.size,
        (observeSamples reader probes (List.range samples.toNat) freshSlots p.2).value,
        (observeSamples reader probes (List.range samples.toNat) freshSlots p.2).error⟩ :
          ProbeObservation)) =
      probes.map fun p =>
        let slot := (List.range samples.toNat).foldl (Slot.observe reader p) ⟨0, "", true⟩
        ⟨p.name, p.address, p.size, slot.value, slot.error⟩ := by
    -- probe by probe; the positions that the slots go by fall away
    have hzip : ∀ f : StateProbe → ProbeObservation,
        probes.map f = probes.zipIdx.map fun p => f p.1 := fun f => by
      conv_lhs => rw [← List.zipIdx_map_fst 0 probes, List.map_map]
      rfl
    rw [hzip]
    refine List.map_congr_left fun p hp => ?_
    rw [observeSamples_eq hreader hsizes (List.mem_zipIdx_iff_getElem?.mp hp)]
    rfl
  rw [observeProbes, observationResult, hslots, observeSeparately]

end Observation

/-- Readable memory ends at an address: points behind it fail, blocks are cut off. -/
def edgeReader (mem : ℕ → UInt8) (edge : ℕ) : Reader where
  point _ a n :=
    if a + n ≤ edge then .ok (littleEndian (slice mem a n)) else .error ⟨"", "ToolError"⟩
  block _ start span := some (slice mem start (min span (edge - start)))

theorem consistent_edgeReader (mem : ℕ → UInt8) (edge : ℕ) :
    (edgeReader mem edge).Consistent := by
  rintro sample start span blob ⟨⟩ hfull a n hn hstart hfits
  rw [length_slice] at hfull
  have hinside : a + n ≤ edge := by omega
  have hcut : ((slice mem start (min span (edge - start))).drop (a - start)).take n =
      slice mem a n := by
    rw [drop_slice, Nat.add_sub_cancel' hstart, take_slice (by omega)]
  rw [hcut]
  exact if_pos hinside

/-- Two probes that overlap, the wider one over the edge of memory. -/
def edgeProbes : List StateProbe := [⟨"wide", 0x0880FFFE, 4⟩, ⟨"low", 0x0880FFFE, 2⟩]

theorem observeProbes_edge :
    observeProbes (edgeReader (fun _ => 1) 0x08810000) edgeProbes 3 =
      observeSeparately (edgeReader (fun _ => 1) 0x08810000) edgeProbes 3 :=
  observeProbes_eq_observeSeparately (consistent_edgeReader _ _) (by decide) 3

example : (observeSeparately (edgeReader (fun _ => 1) 0x08810000) edgeProbes 3).observations =
    [⟨"wide", 0x0880FFFE, 4, 0, "ToolError"⟩, ⟨"low", 0x0880FFFE, 2, 0x101, ""⟩] := by decide

end Probe
