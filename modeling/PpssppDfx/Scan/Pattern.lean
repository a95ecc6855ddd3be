import Mathlib.Data.Int.Order.Basic
import Mathlib.Data.List.Basic
import PpssppDfx.Semantics.Occurrence

/-!
# The pattern scan

`scan_memory` reads a range chunk by chunk. Each read goes past the chunk by one byte
less than the pattern has, and reports the occurrences that begin inside the chunk. A read
that fails skips its chunk; a short read moves the cursor by as much as was read.

The reader answers by the number of the call, so that it may behave differently each
time. The loop runs for a number of iterations, and may still be under way after them.

## Main definitions

* `Scan.Request` — the arguments
* `Scan.scanStep`, `Scan.scanLoop`, `Scan.scanMemory` — the loop
-/

set_option autoImplicit false

namespace Scan

open Semantics

abbrev Bytes := List UInt8

/-- The most bytes of one read. -/
def maxSingleReadBytes : ℕ := 65536

/-- The scan is aborted after more than so many reads in a row timed out. -/
def scanMaxConsecutiveReadFailures : ℕ := 5

/-! ## Matches -/

def hexDigit (n : ℕ) : Char := (String.toList "0123456789ABCDEF").getD n '0'

/-- `bytes.hex().upper()`. -/
def hexUpper (bytes : Bytes) : String :=
  String.ofList (bytes.flatMap fun b => [hexDigit (b.toNat / 16), hexDigit (b.toNat % 16)])

structure Match where
  address : ℕ
  /-- The bytes of the match in hexadecimal. -/
  context : String
  deriving DecidableEq

/-! ## Reads -/

/-- What a read of a chunk yields. -/
inductive Answer where
  | data (bytes : Bytes)
  /-- `TimeoutError`. -/
  | timesOut
  /-- Any other exception. -/
  | fails
  deriving DecidableEq

/-- The reader, by the number of the call, the address and the size. -/
abbrev Reader := ℕ → ℕ → ℕ → Answer

structure Request where
  pattern : Bytes
  start : ℕ
  stop : ℕ
  maxResults : ℤ
  chunkSize : ℤ

namespace Request

variable (r : Request)

/-- How far a read goes past its chunk. -/
def overlap : ℕ := r.pattern.length - 1

/-- `chunk_size`, clamped so that chunk and overlap fit into one read. -/
def effectiveChunk : ℕ := (max 1 (min r.chunkSize ((maxSingleReadBytes : ℤ) - r.overlap))).toNat

def chunkEnd (cursor : ℕ) : ℕ := min (cursor + r.effectiveChunk) r.stop

def readEnd (cursor : ℕ) : ℕ :=
  if r.chunkEnd cursor < r.stop then min (r.chunkEnd cursor + r.overlap) r.stop
  else r.chunkEnd cursor

def readSize (cursor : ℕ) : ℕ := r.readEnd cursor - cursor

end Request

/-! ## The loop -/

structure Progress where
  cursor : ℕ
  found : List Match
  consecutiveTimeouts : ℕ
  /-- The number of reads so far. -/
  calls : ℕ

inductive Outcome where
  | returns (found : List Match)
  /-- `RuntimeError`: too many reads in a row timed out, the last one at the cursor. -/
  | aborts (consecutiveTimeouts cursor : ℕ)
  deriving DecidableEq

/-- The search of one chunk's data, from an index on. -/
def searchChunk (r : Request) (cursor : ℕ) (data : Bytes) : ℕ → ℕ → List Match → List Match
  | 0, _, found => found
  | fuel + 1, searchStart, found =>
    if searchStart < data.length then
      match findFrom r.pattern data searchStart with
      | none => found
      | some idx =>
        let address := cursor + idx
        if r.chunkEnd cursor ≤ address then found
        else if address < r.stop then
          let found :=
            found ++ [⟨address, hexUpper ((data.drop idx).take r.pattern.length)⟩]
          if r.maxResults ≤ found.length then found
          else searchChunk r cursor data fuel (idx + 1) found
        else searchChunk r cursor data fuel (idx + 1) found
    else found

/-- `cursor < end and len(matches) < max_results`. -/
def Progress.Wants (p : Progress) (r : Request) : Prop :=
  p.cursor < r.stop ∧ (p.found.length : ℤ) < r.maxResults

instance (p : Progress) (r : Request) : Decidable (p.Wants r) :=
  inferInstanceAs (Decidable (_ ∧ _))

/-- The next chunk after a read that failed. -/
def Progress.skip (p : Progress) (r : Request) (timeouts : ℕ) : Progress :=
  { p with cursor := r.chunkEnd p.cursor, consecutiveTimeouts := timeouts, calls := p.calls + 1 }

/-- One iteration of the loop. -/
def scanStep (r : Request) (reader : Reader) (p : Progress) : Progress ⊕ Outcome :=
  if p.Wants r then
    let readSize := r.readSize p.cursor
    if readSize = 0 then .inr (.returns p.found)
    else
      match reader p.calls p.cursor readSize with
      | .timesOut =>
        let timeouts := p.consecutiveTimeouts + 1
        if scanMaxConsecutiveReadFailures < timeouts then .inr (.aborts timeouts p.cursor)
        else .inl (p.skip r timeouts)
      | .fails => .inl (p.skip r p.consecutiveTimeouts)
      | .data data =>
        .inl
          { cursor :=
              if data.length < readSize then p.cursor + data.length else r.chunkEnd p.cursor
            found := searchChunk r p.cursor data data.length 0 p.found
            consecutiveTimeouts := 0
            calls := p.calls + 1 }
  else .inr (.returns p.found)

/-- So many iterations of the loop: `none` if it still runs. -/
def scanLoop (r : Request) (reader : Reader) : ℕ → Progress → Option Outcome
  | 0, _ => none
  | fuel + 1, p =>
    match scanStep r reader p with
    | .inl p => scanLoop r reader fuel p
    | .inr outcome => some outcome

def Request.begin (r : Request) : Progress := ⟨r.start, [], 0, 0⟩

/-- `scan_memory`, with so many iterations of its loop. -/
def scanMemory (r : Request) (reader : Reader) (fuel : ℕ) : Option Outcome :=
  if r.pattern = [] then some (.returns [])
  else if r.stop ≤ r.start then some (.returns [])
  else scanLoop r reader fuel r.begin

end Scan
