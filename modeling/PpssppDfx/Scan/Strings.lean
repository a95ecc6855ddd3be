import PpssppDfx.Scan.Value
import PpssppDfx.Semantics.UnitRuns

/-!
# The strings scan

A strings scan reports the runs of characters of a charset that are long enough. It reads the
range in segments and searches each segment on its own, as the value scan does, so a run that
goes over the border of two segments is cut there.

The alternatives of a run pattern begin with different bytes, so at most one of them matches
at a place and a match takes characters as long as there are. The decoders, and the comparison
of the share of Japanese characters with the quality, are parameters.

## Main definitions

* `Scan.Charset.units` — the run patterns
* `Scan.StringScan.collect` — the search of one segment
* `Scan.stringsScan` — `_scan_strings`
* `Scan.StringScan.flatStrings` — the strings of one pass over the flat range

## Main results

* `stringsScan_flat` — the scan finds what one pass finds if none of the runs that count goes
  over a border, and does not if one that is reported does
-/

set_option autoImplicit false

namespace Scan

open Semantics Python

/-! ## Run patterns -/

inductive Charset where
  | shiftJis
  | utf8
  | ascii
  deriving DecidableEq

/-- A byte of a character class. -/
def inClass (lo hi b : UInt8) : Bool := decide (lo ≤ b) && decide (b ≤ hi)

/-- How many bytes follow the first byte of a character, and which ones. -/
def Charset.front (charset : Charset) (b : UInt8) : Option (ℕ × (UInt8 → Bool)) :=
  match charset with
  | .ascii => if inClass 0x20 0x7E b then some (0, fun _ => false) else none
  | .utf8 =>
    if inClass 0x20 0x7E b then some (0, fun _ => false)
    else if inClass 0xC2 0xDF b then some (1, inClass 0x80 0xBF)
    else if inClass 0xE0 0xEF b then some (2, inClass 0x80 0xBF)
    else if inClass 0xF0 0xF4 b then some (3, inClass 0x80 0xBF)
    else none
  | .shiftJis =>
    if inClass 0x81 0x9F b || inClass 0xE0 0xFC b then
      some (1, fun c => inClass 0x40 0x7E c || inClass 0x80 0xFC c)
    else if inClass 0x20 0x7F b || inClass 0xA1 0xDF b then some (0, fun _ => false)
    else none

/-- The characters of a charset. -/
def Charset.units (charset : Charset) : Semantics.Units UInt8 := .ofFront charset.front

/-! ## The scan -/

abbrev Text := List Char

/-- A reported string. -/
structure StringHit where
  address : ℕ
  text : Text
  deriving DecidableEq

/-- The most strings of one scan. -/
def maxStrings : ℕ := 500

/-- The most characters of a reported string. -/
def maxTextChars : ℕ := 4096

/-- The widest range of a strings scan. -/
def maxScanRangeBytes : ℤ := 256 * 1024 * 1024

/-- From so many repetitions on a pattern does not compile. -/
def maxRepeat : ℤ := 4294967295

/-- `quality`: whether it is positive, and whether a share of so many characters in so many
lies below it. -/
structure Quality where
  positive : Bool
  below : ℕ → ℕ → Bool

/-- A kana or a CJK ideograph. -/
def isCjk (ch : Char) : Bool :=
  decide (0x3040 ≤ ch.toNat ∧ ch.toNat ≤ 0x30FF) || decide (0x4E00 ≤ ch.toNat ∧ ch.toNat ≤ 0x9FFF)

/-- `_jp_ratio(s) < quality`. -/
def Quality.rejects (quality : Quality) (s : Text) : Bool :=
  if s = [] then quality.below 0 1 else quality.below (s.countP isCjk) s.length

structure StringsRequest where
  charset : Charset
  /-- `none` also for the empty text. -/
  startAddr : Option AddressArg
  endAddr : Option AddressArg
  minLen : ℤ
  quality : Quality

/-- A scan whose arguments were accepted, with the decoder of its charset: `none` where it
raises `UnicodeDecodeError`. -/
structure StringScan where
  charset : Charset
  decode : Bytes → Option Text
  minLen : ℤ
  quality : Quality
  start : ℕ
  total : ℕ

/-- The checks of `_scan_strings`, and the compilation of its pattern. -/
def StringsRequest.validate (q : StringsRequest) (decoders : Charset → Bytes → Option Text) :
    Except String StringScan :=
  match q.startAddr, q.endAddr with
  | some startAddr, some endAddr =>
    if startAddr.parsed ≤ 0 ∨ endAddr.parsed ≤ startAddr.parsed then
      .error ("invalid range: " ++ strRepr startAddr.text ++ ".." ++ strRepr endAddr.text)
    else if maxScanRangeBytes < endAddr.parsed - startAddr.parsed then
      .error ("range too large: " ++ toString (endAddr.parsed - startAddr.parsed) ++
        " bytes (cap " ++ toString maxScanRangeBytes ++ ")")
    else if maxRepeat ≤ max q.minLen 1 then .error "the repetition number is too large"
    else
      .ok ⟨q.charset, decoders q.charset, q.minLen, q.quality, startAddr.parsed.toNat,
        (endAddr.parsed - startAddr.parsed).toNat⟩
  | _, _ => .error "start_addr and end_addr are required for mode='strings'"

structure StringsFound where
  strings : List StringHit
  truncated : Bool

namespace StringScan

variable (v : StringScan)

/-- The least number of characters of a run. -/
def least : ℕ := (max v.minLen 1).toNat

/-- `run_re.finditer(data)`. -/
def finditer (data : Bytes) : List (Stretch UInt8) := v.charset.units.runs v.least 0 data

/-- The text of a run, unless a filter drops the run. -/
def passes (m : Stretch UInt8) : Option Text :=
  if (m.content.length : ℤ) < v.minLen then none
  else
    match v.decode m.content with
    | none => none
    | some s =>
      if v.charset = .shiftJis ∧ v.quality.positive ∧ v.quality.rejects s then none else some s

/-- The loop over the runs of one segment. -/
def collectRuns (segStart : ℕ) : List (Stretch UInt8) → StringsFound → StringsFound
  | [], found => found
  | m :: runs, found =>
    match v.passes m with
    | none => collectRuns segStart runs found
    | some s =>
      if maxStrings ≤ found.strings.length then { found with truncated := true }
      else
        collectRuns segStart runs
          { found with
            strings := found.strings ++ [⟨segStart + m.start, s.take maxTextChars⟩] }

/-- The body of the loop over the segments: it goes on unless a string was left out. -/
def collect (found : StringsFound) (segStart : ℕ) (data : Bytes) : StringsFound × Bool :=
  let found := v.collectRuns segStart (v.finditer data) found
  (found, !found.truncated)

def run (reader : Reader) : Ending StringsFound :=
  iterSegments reader v.start v.total v.collect (segmentOffsets v.total) 0 0 ⟨[], false⟩

/-- The strings of one pass over the flat range. -/
def flatStrings (mem : ℕ → UInt8) : List StringHit :=
  (v.collect ⟨[], false⟩ v.start (slice mem v.start v.total)).1.strings

end StringScan

/-- `_scan_strings`, or the message of its refusal. -/
def stringsScan (q : StringsRequest) (decoders : Charset → Bytes → Option Text)
    (reader : Reader) : Except String (Ending StringsFound) :=
  match q.validate decoders with
  | .error message => .error message
  | .ok v => .ok (v.run reader)

/-! ## What is collected -/

namespace StringScan

variable {v : StringScan} {mem : ℕ → UInt8} {found : StringsFound} {base k n : ℕ}
  {data : Bytes} {r : Stretch UInt8}

theorem least_pos (v : StringScan) : 0 < v.least := by
  have hone : (1 : ℤ) ≤ max v.minLen 1 := le_max_right _ _
  unfold least
  omega

/-- The string that a run is reported as. -/
def hit (v : StringScan) (r : Stretch UInt8) : Option StringHit :=
  (v.passes r).map fun s => ⟨r.start, s.take maxTextChars⟩

/-- The runs of a stretch of memory, by their addresses. -/
def runsAt (v : StringScan) (mem : ℕ → UInt8) (a n : ℕ) : List (Stretch UInt8) :=
  v.charset.units.runs v.least a (slice mem a n)

theorem runsAt_eq_map (v : StringScan) (mem : ℕ → UInt8) (a n : ℕ) :
    v.runsAt mem a n = (v.finditer (slice mem a n)).map (Stretch.shift a) := by
  rw [runsAt, finditer, ← Units.runs_shift v.least_pos, Nat.add_zero]

/-- The loop over the runs appends their strings, up to the cap. -/
theorem strings_collectRuns (runs : List (Stretch UInt8))
    (hroom : found.strings.length ≤ maxStrings) :
    (v.collectRuns base runs found).strings = found.strings ++
      ((runs.map (Stretch.shift base)).filterMap v.hit).take (maxStrings - found.strings.length) := by
  induction runs generalizing found with
  | nil => simp [collectRuns]
  | cons m runs ih =>
    have hshift : v.hit (m.shift base) =
        (v.passes m).map fun s => StringHit.mk (base + m.start) (s.take maxTextChars) := rfl
    rw [List.map_cons, collectRuns]
    cases hpasses : v.passes m with
    | none =>
      rw [hpasses] at hshift
      rw [List.filterMap_cons_none hshift]
      exact ih hroom
    | some s =>
      rw [hpasses] at hshift
      rw [List.filterMap_cons_some hshift]
      dsimp only
      by_cases hfull : maxStrings ≤ found.strings.length
      · rw [if_pos hfull, Nat.sub_eq_zero_of_le hfull, List.take_zero, List.append_nil]
      · have hlonger : (found.strings ++
            [StringHit.mk (base + m.start) (s.take maxTextChars)]).length = found.strings.length + 1 := by
          rw [List.length_append, List.length_singleton]
        obtain ⟨room, hroom'⟩ := Nat.exists_eq_succ_of_ne_zero
          (by omega : maxStrings - found.strings.length ≠ 0)
        have hleft : maxStrings - (found.strings.length + 1) = room := by omega
        rw [if_neg hfull, ih (by rw [hlonger]; omega), hlonger, hleft, hroom',
          Nat.succ_eq_add_one, List.take_succ_cons, List.append_assoc, List.singleton_append]

/-- A string is left out only behind as many as may be reported. -/
theorem length_of_truncated (base : ℕ) (runs : List (Stretch UInt8)) (hbefore : found.truncated = false)
    (hafter : (v.collectRuns base runs found).truncated = true) :
    maxStrings ≤ (v.collectRuns base runs found).strings.length := by
  induction runs generalizing found with
  | nil =>
    rw [collectRuns, hbefore] at hafter
    cases hafter
  | cons m runs ih =>
    rw [collectRuns] at hafter ⊢
    cases hpasses : v.passes m with
    | none =>
      rw [hpasses] at hafter
      exact ih hbefore hafter
    | some s =>
      rw [hpasses] at hafter
      dsimp only at hafter ⊢
      by_cases hfull : maxStrings ≤ found.strings.length
      · rw [if_pos hfull]
        exact hfull
      · rw [if_neg hfull] at hafter ⊢
        exact ih hbefore hafter

/-- The search of a stretch of memory appends the strings of its runs, up to the cap. -/
theorem strings_collect (mem : ℕ → UInt8) (hroom : found.strings.length ≤ maxStrings) (a n : ℕ) :
    (v.collect found a (slice mem a n)).1.strings = found.strings ++
      ((v.runsAt mem a n).filterMap v.hit).take (maxStrings - found.strings.length) := by
  rw [runsAt_eq_map]
  exact strings_collectRuns _ hroom

theorem flatStrings_eq (v : StringScan) (mem : ℕ → UInt8) :
    v.flatStrings mem = ((v.runsAt mem v.start v.total).filterMap v.hit).take maxStrings := by
  rw [flatStrings, strings_collect mem (Nat.zero_le _)]
  rfl

/-! ## Borders -/

/-- The run goes over the border of two segments. -/
def CrossesBorder (v : StringScan) (r : Stretch UInt8) : Prop :=
  ∃ k, r.Crosses (v.start + k * maxSingleReadBytes)

/-- The runs of the flat range up to the last one that is reported. -/
def counted (v : StringScan) (mem : ℕ → UInt8) : List (Stretch UInt8) :=
  upTo v.hit maxStrings (v.runsAt mem v.start v.total)

/-- A run of a stretch of memory lies in it and holds its bytes. -/
theorem content_of_mem_runsAt {a : ℕ} (hr : r ∈ v.runsAt mem a n) :
    a ≤ r.start ∧ r.start + r.content.length ≤ a + n ∧ 0 < r.content.length ∧
      r.content = slice mem r.start r.content.length := by
  obtain ⟨i, hstart, hstands, hne⟩ := Units.exists_of_mem_runs v.least_pos hr
  have hlength := List.length_pos_of_ne_nil hne
  rw [drop_slice, prefix_slice, ← hstart] at hstands
  exact ⟨by omega, by omega, hlength, hstands.2.symm⟩

/-- The runs of a segment on its own. -/
def segmentRuns (v : StringScan) (mem : ℕ → UInt8) (k : ℕ) : List (Stretch UInt8) :=
  v.runsAt mem (v.start + k * maxSingleReadBytes)
    (min maxSingleReadBytes (v.total - k * maxSingleReadBytes))

/-- The runs of what is left of the range from a segment on. -/
def runsFrom (v : StringScan) (mem : ℕ → UInt8) (k : ℕ) : List (Stretch UInt8) :=
  v.runsAt mem (v.start + k * maxSingleReadBytes) (v.total - k * maxSingleReadBytes)

/-- The search of a segment, with what it has found behind it. -/
def collectSegment (v : StringScan) (mem : ℕ → UInt8) (k : ℕ) (found : StringsFound) :
    StringsFound :=
  (v.collect found (v.start + k * maxSingleReadBytes)
    (slice mem (v.start + k * maxSingleReadBytes)
      (min maxSingleReadBytes (v.total - k * maxSingleReadBytes)))).1

theorem collect_eq (v : StringScan) (found : StringsFound) (segStart : ℕ) (data : Bytes) :
    v.collect found segStart data =
      (v.collectRuns segStart (v.finditer data) found,
        !(v.collectRuns segStart (v.finditer data) found).truncated) := rfl

theorem collectSegment_eq (v : StringScan) (mem : ℕ → UInt8) (k : ℕ) (found : StringsFound) :
    v.collectSegment mem k found = v.collectRuns (v.start + k * maxSingleReadBytes)
      (v.finditer (slice mem (v.start + k * maxSingleReadBytes)
        (min maxSingleReadBytes (v.total - k * maxSingleReadBytes)))) found := by
  rw [collectSegment, collect_eq]

/-- The body of the loop at a segment. -/
theorem collect_segment (v : StringScan) (mem : ℕ → UInt8) (k : ℕ) (found : StringsFound) :
    v.collect found (v.start + k * maxSingleReadBytes)
        (slice mem (v.start + k * maxSingleReadBytes)
          (min maxSingleReadBytes (v.total - k * maxSingleReadBytes))) =
      (v.collectSegment mem k found, !(v.collectSegment mem k found).truncated) := by
  rw [collect_eq, ← collectSegment_eq]

theorem runsFrom_zero : v.runsFrom mem 0 = v.runsAt mem v.start v.total := by
  rw [runsFrom, Nat.zero_mul, Nat.add_zero, Nat.sub_zero]

theorem runsFrom_of_le (h : v.total ≤ k * maxSingleReadBytes) : v.runsFrom mem k = [] := by
  rw [runsFrom, Nat.sub_eq_zero_of_le h]
  rfl

/-- What is left of the range from a segment on is the segment and what is left behind it, as
long as no run goes over the border. -/
theorem upTo_runsFrom (hk : k * maxSingleReadBytes < v.total)
    (hcut : ∀ r ∈ upTo v.hit n (v.runsFrom mem k), ¬ v.CrossesBorder r) :
    upTo v.hit n (v.runsFrom mem k) =
      upTo v.hit n (v.segmentRuns mem k ++ v.runsFrom mem (k + 1)) := by
  have hnext : (k + 1) * maxSingleReadBytes = k * maxSingleReadBytes + maxSingleReadBytes :=
    Nat.succ_mul _ _
  rcases Nat.lt_or_ge (v.total - k * maxSingleReadBytes) (maxSingleReadBytes + 1) with hlast | hmore
  · -- the last segment: nothing is left behind it
    have hnone : v.total ≤ (k + 1) * maxSingleReadBytes := by omega
    rw [runsFrom_of_le hnone, List.append_nil, segmentRuns, min_eq_right (Nat.le_of_lt_succ hlast)]
    rfl
  · have hsize : min maxSingleReadBytes (v.total - k * maxSingleReadBytes) = maxSingleReadBytes :=
      min_eq_left (by omega)
    have hwhole : slice mem (v.start + k * maxSingleReadBytes) (v.total - k * maxSingleReadBytes) =
        slice mem (v.start + k * maxSingleReadBytes) maxSingleReadBytes ++
          slice mem (v.start + (k + 1) * maxSingleReadBytes)
            (v.total - (k + 1) * maxSingleReadBytes) := by
      have hrest : v.total - k * maxSingleReadBytes =
          maxSingleReadBytes + (v.total - (k + 1) * maxSingleReadBytes) := by omega
      rw [hrest, ← slice_append, Nat.add_assoc, ← hnext]
    have hborder : v.start + k * maxSingleReadBytes +
        (slice mem (v.start + k * maxSingleReadBytes) maxSingleReadBytes).length =
          v.start + (k + 1) * maxSingleReadBytes := by
      rw [length_slice, hnext, Nat.add_assoc]
    rw [segmentRuns, hsize]
    rw [runsFrom, runsAt, hwhole] at hcut ⊢
    rw [Units.upTo_runs_append v.least_pos fun r hr hcross => hcut r hr ⟨k + 1, hborder ▸ hcross⟩,
      hborder]
    rfl

theorem strings_collectSegment (hroom : found.strings.length ≤ maxStrings) :
    (v.collectSegment mem k found).strings = found.strings ++
      ((v.segmentRuns mem k).filterMap v.hit).take (maxStrings - found.strings.length) :=
  strings_collect mem hroom _ _

/-- The room that is left behind a segment. -/
theorem room_collectSegment (mem : ℕ → UInt8) (k : ℕ)
    (hroom : found.strings.length ≤ maxStrings) :
    (v.collectSegment mem k found).strings.length ≤ maxStrings ∧
      maxStrings - (v.collectSegment mem k found).strings.length =
        maxStrings - found.strings.length - ((v.segmentRuns mem k).filterMap v.hit).length := by
  rw [strings_collectSegment hroom, List.length_append, List.length_take]
  omega

/-- A string is left out only where there is no room. -/
theorem room_of_truncated (hbefore : found.truncated = false)
    (hafter : (v.collectSegment mem k found).truncated = true) :
    maxStrings - (v.collectSegment mem k found).strings.length = 0 :=
  Nat.sub_eq_zero_of_le (length_of_truncated _ _ hbefore hafter)

/-- The strings of a segment and of what is left behind it are those from the segment on. -/
theorem take_runsFrom (hk : k * maxSingleReadBytes < v.total)
    (hroom : found.strings.length ≤ maxStrings)
    (hcut : ∀ r ∈ upTo v.hit (maxStrings - found.strings.length) (v.runsFrom mem k),
      ¬ v.CrossesBorder r) :
    found.strings ++ ((v.runsFrom mem k).filterMap v.hit).take
        (maxStrings - found.strings.length) =
      (v.collectSegment mem k found).strings ++ ((v.runsFrom mem (k + 1)).filterMap v.hit).take
        (maxStrings - (v.collectSegment mem k found).strings.length) := by
  rw [← filterMap_upTo, upTo_runsFrom hk hcut, filterMap_upTo, List.filterMap_append,
    List.take_append, (room_collectSegment mem k hroom).2, strings_collectSegment hroom,
    List.append_assoc]

/-- The loop over the segments that are left appends the strings of what is left of the range,
as long as none of its runs that count goes over a border. -/
theorem iterSegments_strings {m : ℕ} (calls timeouts : ℕ) {reader : Reader}
    (hreader : ∀ k a n, reader k a n = .data (slice mem a n))
    (hm : (v.total + maxSingleReadBytes - 1) / maxSingleReadBytes = k + m)
    (hroom : found.strings.length ≤ maxStrings) (hwhole : found.truncated = false)
    (hcut : ∀ r ∈ upTo v.hit (maxStrings - found.strings.length) (v.runsFrom mem k),
      ¬ v.CrossesBorder r) :
    ∃ ended, iterSegments reader v.start v.total v.collect
        ((List.range' k m).map (· * maxSingleReadBytes)) calls timeouts found = .finished ended ∧
      ended.strings = found.strings ++
        ((v.runsFrom mem k).filterMap v.hit).take (maxStrings - found.strings.length) := by
  -- `m` segments are left behind the first `k`
  induction m generalizing k calls timeouts found with
  | zero =>
    have hnone : v.total ≤ k * maxSingleReadBytes := by
      unfold maxSingleReadBytes at *
      omega
    refine ⟨found, rfl, ?_⟩
    rw [runsFrom_of_le hnone, List.filterMap_nil, List.take_nil, List.append_nil]
  | succ m ih =>
    have hk : k * maxSingleReadBytes < v.total := by
      unfold maxSingleReadBytes at *
      omega
    obtain ⟨hfits, hleft⟩ := room_collectSegment mem k hroom
    rw [List.range'_succ, List.map_cons,
      iterSegments_data (hreader _ _ _) (collect_segment v mem k found),
      take_runsFrom hk hroom hcut]
    cases htruncated : (v.collectSegment mem k found).truncated with
    | true =>
      refine ⟨v.collectSegment mem k found, rfl, ?_⟩
      rw [room_of_truncated hwhole htruncated, List.take_zero, List.append_nil]
    | false =>
      -- the runs that count behind the segment are among those that count from it on
      refine ih _ _ (by omega) hfits htruncated fun r hr => hcut r ?_
      rw [upTo_runsFrom hk hcut, upTo_append, ← hleft]
      exact List.mem_append_right _ hr

/-- The scan ends with the strings of one pass over the flat range if none of the runs that
count goes over a border. -/
theorem run_eq_flat {reader : Reader} (hreader : ∀ k a n, reader k a n = .data (slice mem a n))
    (hcut : ∀ r ∈ v.counted mem, ¬ v.CrossesBorder r) :
    ∃ found, v.run reader = .finished found ∧ found.strings = v.flatStrings mem := by
  have hnone : (⟨[], false⟩ : StringsFound).strings.length ≤ maxStrings := Nat.zero_le _
  have hcut' : ∀ r ∈ upTo v.hit (maxStrings - (⟨[], false⟩ : StringsFound).strings.length)
      (v.runsFrom mem 0), ¬ v.CrossesBorder r := by
    rw [runsFrom_zero]
    exact hcut
  obtain ⟨found, hends, hstrings⟩ := iterSegments_strings 0 0 hreader (Nat.zero_add _).symm hnone
    rfl hcut'
  refine ⟨found, ?_, ?_⟩
  · rw [run, segmentOffsets, List.range_eq_range']
    exact hends
  · rw [hstrings, runsFrom_zero, flatStrings_eq]
    rfl

/-- A range of one segment has no border. -/
theorem not_crossesBorder (hone : v.total ≤ maxSingleReadBytes) (hr : r ∈ v.counted mem) :
    ¬ v.CrossesBorder r := by
  rintro ⟨k, hbefore, hbehind⟩
  obtain ⟨hlo, hhi, -, -⟩ := content_of_mem_runsAt (mem_of_mem_upTo hr)
  cases k with
  | zero => omega
  | succ k =>
    rw [Nat.succ_mul] at hbehind
    omega

/-! ## Runs that are cut -/

/-- What follows the bytes of a text that can be decoded adds characters to it. -/
def Lengthens (decode : Bytes → Option Text) : Prop :=
  ∀ front behind s t, decode front = some s → decode (front ++ behind) = some t → behind ≠ [] →
    s.length < t.length

/-- What the loop over the runs of a segment adds are strings of these runs. -/
theorem exists_of_mem_collectRuns (runs : List (Stretch UInt8)) {h : StringHit}
    (hh : h ∈ (v.collectRuns base runs found).strings) :
    h ∈ found.strings ∨ ∃ m ∈ runs, v.hit (m.shift base) = some h := by
  induction runs generalizing found with
  | nil => exact Or.inl hh
  | cons m runs ih =>
    rw [collectRuns] at hh
    cases hpasses : v.passes m with
    | none =>
      rw [hpasses] at hh
      exact (ih hh).imp_right fun ⟨m', hm', hhit⟩ => ⟨m', List.mem_cons_of_mem _ hm', hhit⟩
    | some s =>
      rw [hpasses] at hh
      dsimp only at hh
      by_cases hfull : maxStrings ≤ found.strings.length
      · rw [if_pos hfull] at hh
        exact Or.inl hh
      · rw [if_neg hfull] at hh
        rcases ih hh with hmem | ⟨m', hm', hhit⟩
        · rcases List.mem_append.mp hmem with hmem | hnew
          · exact Or.inl hmem
          · refine Or.inr ⟨m, List.mem_cons_self, ?_⟩
            rw [List.mem_singleton.mp hnew]
            exact congrArg (Option.map _) hpasses
        · exact Or.inr ⟨m', List.mem_cons_of_mem _ hm', hhit⟩

/-- What a segment adds are strings of its runs. -/
theorem exists_of_mem_collectSegment {h : StringHit}
    (hh : h ∈ (v.collectSegment mem k found).strings) :
    h ∈ found.strings ∨ ∃ m ∈ v.segmentRuns mem k, v.hit m = some h := by
  rw [collectSegment_eq] at hh
  refine (exists_of_mem_collectRuns _ hh).imp_right fun ⟨m, hm, hhit⟩ => ⟨_, ?_, hhit⟩
  rw [segmentRuns, runsAt_eq_map]
  exact List.mem_map_of_mem hm

/-- Every string that the scan reports is a run of one segment. -/
theorem exists_segment {reader : Reader} (hreader : ∀ k a n, reader k a n = .data (slice mem a n))
    {ended : StringsFound} {h : StringHit} (offsets : List ℕ) (calls timeouts : ℕ)
    (hends : iterSegments reader v.start v.total v.collect
      (offsets.map (· * maxSingleReadBytes)) calls timeouts found = .finished ended)
    (hh : h ∈ ended.strings) :
    h ∈ found.strings ∨ ∃ k, ∃ m ∈ v.segmentRuns mem k, v.hit m = some h := by
  induction offsets generalizing calls timeouts found with
  | nil =>
    cases hends
    exact Or.inl hh
  | cons k offsets ih =>
    have hsegment : h ∈ (v.collectSegment mem k found).strings →
        h ∈ found.strings ∨ ∃ k, ∃ m ∈ v.segmentRuns mem k, v.hit m = some h := fun hmem =>
      (exists_of_mem_collectSegment hmem).imp_right fun hrun => ⟨k, hrun⟩
    rw [List.map_cons, iterSegments_data (hreader _ _ _) (collect_segment v mem k found)] at hends
    cases htruncated : (v.collectSegment mem k found).truncated with
    | true =>
      rw [htruncated] at hends
      cases hends
      exact hsegment hh
    | false =>
      rw [htruncated] at hends
      rcases ih _ _ hends with hmem | hlater
      · exact hsegment hmem
      · exact Or.inr hlater

theorem decode_of_passes {s : Text} (h : v.passes r = some s) : v.decode r.content = some s := by
  unfold passes at h
  split_ifs at h
  split at h
  · cases h
  · split_ifs at h
    cases h
    assumption

/-- A run that a segment has from the start of one that goes over a border is a shorter piece
of it. -/
theorem exists_rest_of_crosses {m : Stretch UInt8} (hm : m ∈ v.segmentRuns mem k)
    (hr : r ∈ v.counted mem) (hcross : v.CrossesBorder r) (hstart : m.start = r.start) :
    ∃ behind, m.content ++ behind = r.content ∧ behind ≠ [] := by
  obtain ⟨hlo, hhi, hpos, hbytes⟩ := content_of_mem_runsAt hm
  obtain ⟨-, -, -, hwhole⟩ := content_of_mem_runsAt (mem_of_mem_upTo hr)
  obtain ⟨j, hbefore, hbehind⟩ := hcross
  -- the segment ends at the border or before it
  have hends : v.start + (k + 1) * maxSingleReadBytes ≤ v.start + j * maxSingleReadBytes := by
    have hlt : k * maxSingleReadBytes < j * maxSingleReadBytes := by omega
    have hle : k + 1 ≤ j := Nat.lt_of_mul_lt_mul_right hlt
    exact Nat.add_le_add_left (Nat.mul_le_mul_right _ hle) _
  rw [Nat.succ_mul] at hends
  refine ⟨slice mem (r.start + m.content.length) (r.content.length - m.content.length), ?_, ?_⟩
  · rw [hwhole, length_slice, hbytes, length_slice, hstart, slice_append]
    congr 1
    omega
  · refine List.ne_nil_of_length_pos ?_
    rw [length_slice]
    omega

/-- A run that is reported whole and goes over a border is reported by no segment. -/
theorem run_ne_flat {reader : Reader} (hreader : ∀ k a n, reader k a n = .data (slice mem a n))
    (hdecode : Lengthens v.decode) (hr : r ∈ v.counted mem) (hcross : v.CrossesBorder r) {s : Text}
    (hpasses : v.passes r = some s) (hshort : s.length ≤ maxTextChars) :
    ¬ ∃ found, v.run reader = .finished found ∧ found.strings = v.flatStrings mem := by
  rintro ⟨found, hends, hstrings⟩
  have hhit : v.hit r = some ⟨r.start, s⟩ := by
    rw [hit, hpasses, Option.map_some, List.take_of_length_le hshort]
  have hreported : (⟨r.start, s⟩ : StringHit) ∈ found.strings := by
    rw [hstrings, flatStrings_eq, ← filterMap_upTo]
    exact List.mem_filterMap.mpr ⟨r, hr, hhit⟩
  obtain ⟨k, m, hm, hsame⟩ :=
    (exists_segment hreader _ _ _ hends hreported).resolve_left List.not_mem_nil
  obtain ⟨t, hm', hsame⟩ := Option.map_eq_some_iff.mp hsame
  obtain ⟨hstart, htext⟩ := StringHit.mk.inj hsame
  obtain ⟨behind, hcontent, hbehind⟩ := exists_rest_of_crosses hm hr hcross hstart
  -- the text of the whole run is longer than that of its piece
  have hlonger : t.length < s.length := by
    have hwhole := decode_of_passes hpasses
    rw [← hcontent] at hwhole
    exact hdecode _ _ t s (decode_of_passes hm') hwhole hbehind
  rw [List.take_of_length_le (by omega)] at htext
  rw [htext] at hlonger
  exact absurd hlonger (Nat.lt_irrefl _)

end StringScan

/-- Over a fully readable memory: the scan reports the strings of one pass over the flat range
if none of the runs up to the last reported one goes over a border of two segments, and it does
not if one of them that is reported whole does. -/
theorem stringsScan_flat {q : StringsRequest} {decoders : Charset → Bytes → Option Text}
    {v : StringScan} {mem : ℕ → UInt8} {reader : Reader} (hvalid : q.validate decoders = .ok v)
    (hreader : ∀ k a n, reader k a n = .data (slice mem a n)) :
    ((∀ r ∈ v.counted mem, ¬ v.CrossesBorder r) →
        ∃ found, stringsScan q decoders reader = .ok (.finished found) ∧
          found.strings = v.flatStrings mem) ∧
      (StringScan.Lengthens v.decode →
        (∃ r ∈ v.counted mem, v.CrossesBorder r ∧
          ∃ s, v.passes r = some s ∧ s.length ≤ maxTextChars) →
        ¬ ∃ found, stringsScan q decoders reader = .ok (.finished found) ∧
          found.strings = v.flatStrings mem) := by
  have hscan : stringsScan q decoders reader = .ok (v.run reader) := by
    rw [stringsScan, hvalid]
  simp only [hscan, Except.ok.injEq]
  constructor
  · exact StringScan.run_eq_flat hreader
  · rintro hdecode ⟨r, hr, hcross, s, hpasses, hshort⟩
    exact StringScan.run_ne_flat hreader hdecode hr hcross hpasses hshort

/-- Six letters from each of these addresses on. -/
def lettersAt (places : List ℕ) : ℕ → UInt8 := fun b =>
  if ∃ a ∈ places, a ≤ b ∧ b < a + 6 then 0x41 else 0

/-- A scan for strings of six characters over so many bytes. -/
def lettersRequest (total : ℤ) : StringsRequest :=
  ⟨.ascii, some ⟨"0x08800000", 0x08800000⟩, some ⟨"end", 0x08800000 + total⟩, 6,
    ⟨false, fun _ _ => false⟩⟩

/-- Each byte as the character of its number, as the decoders have it for ASCII text. -/
def plainDecoders : Charset → Bytes → Option Text :=
  fun _ bytes => some (bytes.map fun b => Char.ofNat b.toNat)

def lettersScan (total : ℕ) : StringScan :=
  ⟨.ascii, plainDecoders .ascii, 6, ⟨false, fun _ _ => false⟩, 0x08800000, total⟩

theorem lengthens_plainDecoders : StringScan.Lengthens (plainDecoders .ascii) := by
  intro front behind s t hs ht hne
  cases hs
  cases ht
  have hpos := List.length_pos_of_ne_nil hne
  rw [List.length_map, List.length_map, List.length_append]
  omega

/-- Bytes before the letters are no characters. -/
theorem runsAt_lettersAt {places : List ℕ} {total m : ℕ} (hm : m < total)
    (hplaces : ∀ a ∈ places, 0x08800000 + m ≤ a) :
    (lettersScan total).runsAt (lettersAt places) 0x08800000 total =
      (lettersScan total).runsAt (lettersAt places) (0x08800000 + m) (total - m) := by
  have hgap : ∀ i < m, Charset.ascii.units.read
      ((slice (lettersAt places) 0x08800000 total).drop i) = none := by
    intro i hi
    have hzero : lettersAt places (0x08800000 + i) = 0 := by
      refine if_neg fun ⟨a, ha, hle, _⟩ => ?_
      have hlow := hplaces a ha
      omega
    obtain ⟨rest, hrest⟩ := Nat.exists_eq_succ_of_ne_zero (by omega : total - i ≠ 0)
    rw [drop_slice, hrest, Nat.succ_eq_add_one, slice_succ, hzero]
    rfl
  have hlength : m ≤ (slice (lettersAt places) 0x08800000 total).length := by
    rw [length_slice]
    exact hm.le
  rw [StringScan.runsAt, StringScan.runsAt, ← drop_slice]
  exact Units.runs_skip (lettersScan total).least_pos hlength hgap

/-- A run of six letters. -/
def sixLetters (a : ℕ) : Stretch UInt8 := ⟨a, List.replicate 6 0x41⟩

/-- Letters before the end of the first segment, and letters in the second one. -/
theorem stringsScan_letters :
    ∃ found, stringsScan (lettersRequest 65546) plainDecoders
        (fun _ a n => .data (slice (lettersAt [0x0880FFF0, 0x08810003]) a n)) =
          .ok (.finished found) ∧
      found.strings = (lettersScan 65546).flatStrings (lettersAt [0x0880FFF0, 0x08810003]) := by
  have hruns : (lettersScan 65546).runsAt (lettersAt [0x0880FFF0, 0x08810003]) 0x08800000 65546 =
      [sixLetters 0x0880FFF0, sixLetters 0x08810003] := by
    rw [runsAt_lettersAt (m := 65520) (by decide) (by decide)]
    decide
  have hcounted : (lettersScan 65546).counted (lettersAt [0x0880FFF0, 0x08810003]) ⊆
      [sixLetters 0x0880FFF0, sixLetters 0x08810003] := by
    rw [← hruns]
    exact fun _ hr => mem_of_mem_upTo hr
  refine (stringsScan_flat (v := lettersScan 65546) rfl fun _ _ _ => rfl).1 fun r hr => ?_
  rintro ⟨k, hbefore, hbehind⟩
  -- the border is at 0x08810000, between the two runs
  have hr := hcounted hr
  simp only [List.mem_cons, List.not_mem_nil, or_false] at hr
  rcases hr with rfl | rfl
  all_goals
    simp only [sixLetters, lettersScan, maxSingleReadBytes, List.length_replicate] at hbefore hbehind
    omega

/-- The letters are the first run behind bytes that are no characters. -/
theorem counted_lettersAt :
    sixLetters 0x0880FFFD ∈ (lettersScan 65542).counted (lettersAt [0x0880FFFD]) := by
  have hruns : (lettersScan 65542).runsAt (lettersAt [0x0880FFFD]) 0x08800000 65542 =
      [sixLetters 0x0880FFFD] := by
    rw [runsAt_lettersAt (m := 65533) (by decide) (by decide)]
    decide
  have hhit : (lettersScan 65542).hit (sixLetters 0x0880FFFD) =
      some ⟨0x0880FFFD, List.replicate 6 'A'⟩ := by decide
  rw [StringScan.counted, show (lettersScan 65542).start = 0x08800000 from rfl,
    show (lettersScan 65542).total = 65542 from rfl, hruns]
  exact upTo_cons_some hhit ▸ List.mem_cons_self

/-- The letters lie across the end of the first segment: neither half is long enough. -/
theorem stringsScan_halves :
    ¬ ∃ found, stringsScan (lettersRequest 65542) plainDecoders
        (fun _ a n => .data (slice (lettersAt [0x0880FFFD]) a n)) = .ok (.finished found) ∧
      found.strings = (lettersScan 65542).flatStrings (lettersAt [0x0880FFFD]) := by
  rintro ⟨found, hends, hstrings⟩
  have hrun : (lettersScan 65542).run
      (fun _ a n => .data (slice (lettersAt [0x0880FFFD]) a n)) = .finished found :=
    Except.ok.inj hends
  have hcross : (lettersScan 65542).CrossesBorder (sixLetters 0x0880FFFD) :=
    ⟨1, by decide, by decide⟩
  have hpasses : (lettersScan 65542).passes (sixLetters 0x0880FFFD) =
      some (List.replicate 6 'A') := by decide
  exact StringScan.run_ne_flat (fun _ _ _ => rfl) lengthens_plainDecoders counted_lettersAt hcross
    hpasses (by decide) ⟨found, hrun, hstrings⟩

end Scan
