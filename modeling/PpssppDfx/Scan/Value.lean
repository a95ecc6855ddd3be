import PpssppDfx.Python.LittleEndian
import PpssppDfx.Python.Value
import PpssppDfx.Scan.Pattern

/-!
# The value scan

The first phase of a value scan looks for an integer of one, two or four bytes at every
offset of a range. It reads the range in segments of 64 KiB and searches each segment on
its own, up to a cap on the candidates.

## Main definitions

* `Scan.scanBlockHits` — the offsets of a block whose value satisfies the comparison
* `Scan.iterSegments` — the segments of a range, and the loop over them
* `Scan.initialScan` — `_scan_value` in its phase `initial`, up to the candidates
-/

set_option autoImplicit false

namespace Scan

open Semantics Python

/-- The most candidates of one scan. -/
def valueMaxHits : ℕ := 5000

/-- The widest range of a scan in the foreground, 8 MiB. -/
def valueHardRange : ℤ := 8388608

/-- The widest range of a scan in the background, 32 MiB. -/
def valueBgHardRange : ℤ := 33554432

inductive Width where
  | u8 | u16 | u32
  deriving DecidableEq

namespace Width

def size : Width → ℕ
  | u8 => 1
  | u16 => 2
  | u32 => 4

theorem size_pos (width : Width) : 0 < width.size := by
  cases width <;> decide

def name : Width → String
  | u8 => "u8"
  | u16 => "u16"
  | u32 => "u32"

end Width

inductive Op where
  | eq | ne | lt | gt
  deriving DecidableEq

/-- `_cmp`. -/
def cmp (v : ℕ) (op : Op) (value : ℤ) : Bool :=
  match op with
  | .eq => (v : ℤ) = value
  | .ne => (v : ℤ) ≠ value
  | .lt => (v : ℤ) < value
  | .gt => value < (v : ℤ)

/-! ## Blocks -/

/-- `unpack_from(blob, off)[0]`. -/
def unpackFrom (size : ℕ) (blob : Bytes) (off : ℕ) : ℕ :=
  littleEndian ((blob.drop off).take size)

/-- The search for the bytes of a target, as long as fewer than `limit` are found. -/
def findHits (target blob : Bytes) (limit : ℤ) : ℕ → ℕ → List ℕ → List ℕ
  | 0, _, out => out
  | fuel + 1, start, out =>
    if (out.length : ℤ) < limit then
      match findFrom target blob start with
      | none => out
      | some idx => findHits target blob limit fuel (idx + 1) (out ++ [idx])
    else out

/-- The comparison at one offset after the other, up to `limit` hits. -/
def unpackHits (blob : Bytes) (width : Width) (op : Op) (value limit : ℤ) :
    List ℕ → List ℕ → List ℕ
  | [], out => out
  | off :: offs, out =>
    if cmp (unpackFrom width.size blob off) op value then
      if limit ≤ (out ++ [off]).length then out ++ [off]
      else unpackHits blob width op value limit offs (out ++ [off])
    else unpackHits blob width op value limit offs out

/-- `_scan_block_hits`. -/
def scanBlockHits (blob : Bytes) (width : Width) (op : Op) (value limit : ℤ) : List ℕ :=
  if limit ≤ 0 ∨ blob.length < width.size then []
  else
    match op with
    | .eq =>
      match toBytes width.size value with
      | none => []
      | some target => findHits target blob limit (blob.length + 1) 0 []
    | op => unpackHits blob width op value limit (List.range (blob.length - width.size + 1)) []

/-! ## Segments -/

/-- How a loop over segments ends. -/
inductive Ending (σ : Type) where
  | finished (s : σ)
  /-- `RuntimeError`: too many reads in a row timed out, the last one at the address. -/
  | aborted (consecutiveTimeouts address : ℕ)

/-- `range(0, size, MAX_SINGLE_READ_BYTES)`. -/
def segmentOffsets (size : ℕ) : List ℕ :=
  (List.range ((size + maxSingleReadBytes - 1) / maxSingleReadBytes)).map (· * maxSingleReadBytes)

/-- `async for seg_start, blob in _iter_segments(...)` with a body that says whether the
loop goes on. -/
def iterSegments {σ : Type} (reader : Reader) (start size : ℕ) (body : σ → ℕ → Bytes → σ × Bool) :
    List ℕ → ℕ → ℕ → σ → Ending σ
  | [], _, _, s => .finished s
  | offset :: offsets, calls, timeouts, s =>
    match reader calls (start + offset) (min maxSingleReadBytes (size - offset)) with
    | .timesOut =>
      if scanMaxConsecutiveReadFailures < timeouts + 1 then .aborted (timeouts + 1) (start + offset)
      else iterSegments reader start size body offsets (calls + 1) (timeouts + 1) s
    | .fails => iterSegments reader start size body offsets (calls + 1) timeouts s
    | .data raw =>
      match body s (start + offset) raw with
      | (s, true) => iterSegments reader start size body offsets (calls + 1) 0 s
      | (s, false) => .finished s

/-- A segment that is read is searched, and the loop goes on if the search says so. -/
theorem iterSegments_data {σ : Type} {reader : Reader} {start size offset calls : ℕ}
    {body : σ → ℕ → Bytes → σ × Bool} {raw : Bytes} {s s' : σ} {goesOn : Bool}
    (hread : reader calls (start + offset) (min maxSingleReadBytes (size - offset)) = .data raw)
    (hbody : body s (start + offset) raw = (s', goesOn)) (offsets : List ℕ) (timeouts : ℕ) :
    iterSegments reader start size body (offset :: offsets) calls timeouts s =
      if goesOn = true then iterSegments reader start size body offsets (calls + 1) 0 s'
      else .finished s' := by
  rw [iterSegments, hread]
  dsimp only
  rw [hbody]
  cases goesOn <;> rfl

/-! ## The first phase -/

/-- An address argument: its text and what `parse_address` makes of it. -/
structure AddressArg where
  text : String
  parsed : ℤ

structure InitialRequest where
  value : Option ℤ
  width : Width
  op : Op
  /-- `none` also for the empty text. -/
  startAddr : Option AddressArg
  endAddr : Option AddressArg
  hardRange : ℤ

/-- `_validate_unsigned_value`. -/
def validateUnsignedValue (value : ℤ) (width : Width) : Except String ℤ :=
  if value < 0 ∨ 2 ^ (8 * width.size) ≤ value then
    .error ("value " ++ toString value ++ " does not fit unsigned " ++ width.name ++
      " — expected an integer in [0, " ++ toString (2 ^ (8 * width.size) - 1 : ℤ) ++ "]")
  else .ok value

/-- A scan whose arguments were accepted. -/
structure ValueScan where
  width : Width
  op : Op
  value : ℤ
  start : ℕ
  total : ℕ

/-- The checks of the phase `initial`. -/
def InitialRequest.validate (q : InitialRequest) : Except String ValueScan :=
  match q.value with
  | none => .error "phase='initial' requires value"
  | some value =>
    match validateUnsignedValue value q.width with
    | .error message => .error message
    | .ok value =>
      match q.startAddr, q.endAddr with
      | some startAddr, some endAddr =>
        if startAddr.parsed ≤ 0 ∨ endAddr.parsed ≤ startAddr.parsed then
          .error ("invalid range: " ++ strRepr startAddr.text ++ ".." ++ strRepr endAddr.text)
        else if q.hardRange < endAddr.parsed - startAddr.parsed then
          .error ("initial scan range " ++ toString (endAddr.parsed - startAddr.parsed) ++
            " bytes exceeds the hard cap " ++ toString q.hardRange ++
            " — narrow the range (a full-band 24 MB scan takes ~40 s over localhost WS; " ++
            "keep ≤1 MiB per call or split).")
        else
          .ok ⟨q.width, q.op, value, startAddr.parsed.toNat,
            (endAddr.parsed - startAddr.parsed).toNat⟩
      | _, _ => .error "phase='initial' requires start_addr and end_addr"

/-- The body of the loop over the segments: it appends the hits of one segment and goes
on while the cap is not reached. -/
def ValueScan.collect (v : ValueScan) (candidates : List ℕ) (segStart : ℕ) (blob : Bytes) :
    List ℕ × Bool :=
  let remaining : ℤ := valueMaxHits - candidates.length
  if remaining ≤ 0 then (candidates, false)
  else
    let candidates :=
      candidates ++ (scanBlockHits blob v.width v.op v.value remaining).map (segStart + ·)
    (candidates, decide (candidates.length < valueMaxHits))

def ValueScan.run (v : ValueScan) (reader : Reader) : Ending (List ℕ) :=
  iterSegments reader v.start v.total v.collect (segmentOffsets v.total) 0 0 []

/-- The candidates of the phase `initial`, or the message of its refusal. -/
def initialScan (q : InitialRequest) (reader : Reader) : Except String (Ending (List ℕ)) :=
  match q.validate with
  | .error message => .error message
  | .ok v => .ok (v.run reader)

end Scan
