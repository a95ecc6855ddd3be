import Mathlib.Algebra.Order.Ring.Int
import Mathlib.Data.List.Count
import PpssppDfx.Semantics.Machine

/-!
# The mirror of the emulator's log

The handler appends each record to a file and stops at a cap. It counts the bytes of a line
as `encode` gives them, and then writes the line in text mode, which on some platforms turns
every line feed into two bytes. The count is short by the number of line ends, and nothing
but the room reserved for the cap marker makes up for it.

## Main definitions

* `Logging.emit` — what one record does to the file
* `Logging.Overruns` — the line ends of what is appended need more room than is left

## Main results

* `size_le_of_reaches` — the file stays under the cap when no record overruns it
* `size_le_iff_not_overruns` — a record that is written whole keeps the cap exactly when it
  does not overrun it
-/

set_option autoImplicit false

namespace Logging

open Semantics

/-! ## Text mode -/

abbrev Text := List Char

/-- `text.encode("utf-8")`. -/
def encode (text : Text) : List UInt8 := text.flatMap String.utf8EncodeChar

/-- The line end that a file in text mode writes for `"\n"`. -/
inductive Newline where
  | lf
  | crlf
  deriving DecidableEq

/-- What text mode writes. -/
def Newline.translate : Newline → Text → Text
  | .lf, text => text
  | .crlf, text => text.flatMap fun c => if c = '\n' then ['\r', '\n'] else [c]

/-- The line ends of a text. -/
def lineEnds (text : Text) : ℕ := text.count '\n'

@[simp] theorem encode_nil : encode [] = [] := rfl

@[simp] theorem encode_cons (c : Char) (text : Text) :
    encode (c :: text) = String.utf8EncodeChar c ++ encode text := rfl

@[simp] theorem length_encode_lf (text : Text) :
    (encode (Newline.lf.translate text)).length = (encode text).length := rfl

/-- With two bytes for a line end, as many more bytes are written as there are line ends. -/
@[simp] theorem length_encode_crlf (text : Text) :
    (encode (Newline.crlf.translate text)).length = (encode text).length + lineEnds text := by
  induction text with
  | nil => rfl
  | cons c text ih =>
    have htail : Newline.crlf.translate (c :: text) =
        (if c = '\n' then ['\r', '\n'] else [c]) ++ Newline.crlf.translate text := rfl
    have happend (front back : Text) : encode (front ++ back) = encode front ++ encode back :=
      List.flatMap_append
    rw [htail, happend, List.length_append, ih, encode_cons, List.length_append]
    by_cases hc : c = '\n'
    · -- the line end is one byte by count and two on disk
      subst hc
      have hpair : (encode ['\r', '\n']).length = 2 := by decide
      have hone : (String.utf8EncodeChar '\n').length = 1 := by decide
      rw [if_pos rfl, hpair, hone, lineEnds, lineEnds, List.count_cons_self]
      omega
    · rw [if_neg hc, lineEnds, lineEnds, List.count_cons_of_ne hc]
      simp only [encode_cons, encode_nil, List.append_nil]
      omega

/-! ## The handler -/

/-- `MIRROR_MAX_BYTES`: the cap, and what the reader of the file accepts. -/
def mirrorMaxBytes : ℤ := 10 * 1024 * 1024

/-- `MARKER_MAX_BYTES`: the room reserved for the cap marker. -/
def markerMaxBytes : ℤ := 128

def capMarkerPrefix : Text := "[ppsspp-dfx] log mirror capped".toList

def compactCapMarker : Text := ['\n'] ++ capMarkerPrefix ++ ['\n']

/-- `_full_cap_marker`; `stamp` is the local time that `strftime` prints. -/
def fullCapMarker (maxBytes : ℤ) (stamp : Text) : Text :=
  ['\n'] ++ capMarkerPrefix ++ " at ".toList ++ (toString maxBytes).toList ++
    " bytes on ".toList ++ stamp ++ " — further records suppressed.\n".toList

/-- The file on disk, if it exists, and the handler's memory of having written a marker. -/
structure Mirror where
  file : Option (List UInt8)
  capMarked : Bool

/-- `stat().st_size`, or zero where there is no file. -/
def Mirror.size (s : Mirror) : ℕ := (s.file.getD []).length

/-- How far the file system lets a record come. -/
inductive Io where
  /-- Creating the directory or asking for the size raises. -/
  | unprobed
  /-- Opening the file raises. -/
  | unopened
  /-- Writing raises, with this many bytes on disk. -/
  | cut (written : ℕ)
  | done
  deriving DecidableEq

/-- `open("a")` and `write`. -/
def Mirror.append (s : Mirror) (newline : Newline) (text : Text) : Io → Mirror
  | .unprobed | .unopened => s
  | .cut written =>
    { s with file := some (s.file.getD [] ++ (encode (newline.translate text)).take written) }
  | .done => { s with file := some (s.file.getD [] ++ encode (newline.translate text)) }

/-- `_write_cap_marker`: the marker, or the compact one, or nothing, whichever fits first. -/
def writeCapMarker (newline : Newline) (maxBytes : ℤ) (s : Mirror) (stamp : Text) (io : Io) :
    Mirror :=
  if s.capMarked then s
  else
    let marked : Mirror := { s with capMarked := true }
    if s.size + (encode (fullCapMarker maxBytes stamp)).length > maxBytes then
      if s.size + (encode compactCapMarker).length > maxBytes then marked
      else marked.append newline compactCapMarker io
    else marked.append newline (fullCapMarker maxBytes stamp) io

/-- The line of a record. -/
def lineOf (message : Text) : Text := message ++ ['\n']

/-- The line leaves the reserved room free. -/
def InHeadroom (maxBytes : ℤ) (s : Mirror) (line : Text) : Prop :=
  s.size + (encode line).length ≤ maxBytes - markerMaxBytes

instance (maxBytes : ℤ) (s : Mirror) (line : Text) : Decidable (InHeadroom maxBytes s line) :=
  inferInstanceAs (Decidable (_ ≤ _))

/-- `emit`. There is no message where formatting or encoding the record raises; every
exception ends in `handleError`, which leaves the file alone. -/
def emit (newline : Newline) (maxBytes : ℤ) (s : Mirror) (message : Option Text) (stamp : Text)
    (io : Io) : Mirror :=
  match message with
  | none => s
  | some message =>
    if io = .unprobed then s
    else if s.size > maxBytes then s
    else if InHeadroom maxBytes s (lineOf message) then s.append newline (lineOf message) io
    else writeCapMarker newline maxBytes s stamp io

/-- What happens to the mirror. -/
inductive Label where
  | emit (message : Option Text) (stamp : Text) (io : Io)
  /-- A new process attaches a new handler to the file. -/
  | restart

def step (newline : Newline) (maxBytes : ℤ) (s : Mirror) : Label → Mirror
  | .emit message stamp io => emit newline maxBytes s message stamp io
  | .restart => { s with capMarked := false }

def machine (newline : Newline) (maxBytes : ℤ) : Machine Mirror Label where
  step s label := some (step newline maxBytes s label)

/-! ## The cap -/

variable {newline : Newline} {maxBytes : ℤ} {s t : Mirror} {message stamp text : Text} {io : Io}

/-- The counted bytes of the text fit under the cap, and so do not its line ends on top. -/
def LineEndsExceed (maxBytes : ℤ) (s : Mirror) (text : Text) : Prop :=
  s.size + (encode text).length ≤ maxBytes ∧
    maxBytes - (s.size + (encode text).length) < lineEnds text

/-- The line ends of what a record appends need more room than is left: those of its line, or
those of the cap marker that is written in place of it. -/
def Overruns (maxBytes : ℤ) (s : Mirror) (message stamp : Text) : Prop :=
  InHeadroom maxBytes s (lineOf message) ∧ LineEndsExceed maxBytes s (lineOf message) ∨
    ¬ InHeadroom maxBytes s (lineOf message) ∧ s.capMarked = false ∧
      (LineEndsExceed maxBytes s (fullCapMarker maxBytes stamp) ∨
        maxBytes < s.size + (encode (fullCapMarker maxBytes stamp)).length ∧
          LineEndsExceed maxBytes s compactCapMarker)

/-- Line ends take one byte, or the record does not overrun the cap. -/
def Fits (newline : Newline) (maxBytes : ℤ) (s : Mirror) : Label → Prop
  | .emit (some message) stamp _ => newline = .lf ∨ ¬ Overruns maxBytes s message stamp
  | _ => True

theorem size_append_le (s : Mirror) (newline : Newline) (text : Text) (io : Io) :
    (s.append newline text io).size ≤ s.size + (encode (newline.translate text)).length := by
  cases io with
  | unprobed => exact Nat.le_add_right _ _
  | unopened => exact Nat.le_add_right _ _
  | cut written =>
    simp only [Mirror.append, Mirror.size, Option.getD_some, List.length_append, List.length_take]
    omega
  | done =>
    simp only [Mirror.append, Mirror.size, Option.getD_some, List.length_append]
    omega

@[simp] theorem size_append_done (s : Mirror) (newline : Newline) (text : Text) :
    (s.append newline text .done).size = s.size + (encode (newline.translate text)).length := by
  simp only [Mirror.append, Mirror.size, Option.getD_some, List.length_append]

/-- A text whose counted bytes fit is written under the cap unless its line ends exceed it. -/
theorem size_append_le_of_fits (hcount : s.size + (encode text).length ≤ maxBytes)
    (hfits : newline = .lf ∨ ¬ LineEndsExceed maxBytes s text) :
    ((s.append newline text io).size : ℤ) ≤ maxBytes := by
  have hwritten := size_append_le s newline text io
  cases newline with
  | lf =>
    rw [length_encode_lf] at hwritten
    omega
  | crlf =>
    rw [length_encode_crlf] at hwritten
    obtain hlf | hends := hfits
    · cases hlf
    · simp only [LineEndsExceed, not_and, Int.not_lt] at hends
      have := hends hcount
      omega

theorem size_append_done_gt (hends : LineEndsExceed maxBytes s text) :
    maxBytes < (s.append .crlf text .done).size := by
  obtain ⟨-, hends⟩ := hends
  rw [size_append_done, length_encode_crlf]
  push_cast
  omega

@[simp] theorem size_capMarked (s : Mirror) (b : Bool) :
    ({ s with capMarked := b } : Mirror).size = s.size := rfl

/-- A record keeps the cap unless it overruns it. -/
theorem size_emit_le (hsize : s.size ≤ maxBytes)
    (hfits : newline = .lf ∨ ¬ Overruns maxBytes s message stamp) :
    ((emit newline maxBytes s (some message) stamp io).size : ℤ) ≤ maxBytes := by
  unfold emit
  dsimp only
  split_ifs with hprobe hover hroom
  · exact hsize
  · exact hsize
  · -- the line is written, and the reserved room is left over
    refine size_append_le_of_fits ?_ (hfits.imp_right fun hnot hends => ?_)
    · unfold InHeadroom markerMaxBytes at hroom
      omega
    · exact hnot (Or.inl ⟨hroom, hends⟩)
  · unfold writeCapMarker
    dsimp only
    -- a marker was written before, or neither fits, or one is written in place of the line
    split_ifs with hmarked hfull hcompact
    · exact hsize
    · exact hsize
    · refine size_append_le_of_fits (Int.not_lt.mp hcompact) (hfits.imp_right fun hnot hends => ?_)
      exact hnot (Or.inr ⟨hroom, Bool.not_eq_true _ ▸ hmarked, Or.inr ⟨hfull, hends⟩⟩)
    · refine size_append_le_of_fits (Int.not_lt.mp hfull) (hfits.imp_right fun hnot hends => ?_)
      exact hnot (Or.inr ⟨hroom, Bool.not_eq_true _ ▸ hmarked, Or.inl hends⟩)

/-- A record that overruns the cap and is written whole takes the file beyond it. -/
theorem size_emit_gt (hsize : s.size ≤ maxBytes) (hover : Overruns maxBytes s message stamp) :
    maxBytes < (emit .crlf maxBytes s (some message) stamp .done).size := by
  unfold emit
  dsimp only
  rw [if_neg (by decide), if_neg (Int.not_lt.mpr hsize)]
  rcases hover with ⟨hroom, hends⟩ | ⟨hroom, hmarked, hends⟩
  · rw [if_pos hroom]
    exact size_append_done_gt hends
  · rw [if_neg hroom]
    unfold writeCapMarker
    dsimp only
    rw [if_neg (by simp [hmarked])]
    -- the full marker fits by count, or the compact one does in its stead
    rcases hends with hends | ⟨hfull, hends⟩
    · rw [if_neg (Int.not_lt.mpr hends.1)]
      exact size_append_done_gt hends
    · rw [if_pos hfull, if_neg (Int.not_lt.mpr hends.1)]
      exact size_append_done_gt hends

/-- A record that is written whole keeps the cap exactly when line ends take one byte or it
does not overrun it. -/
theorem size_le_iff_not_overruns (hsize : s.size ≤ maxBytes) :
    ((emit newline maxBytes s (some message) stamp .done).size : ℤ) ≤ maxBytes ↔
      newline = .lf ∨ ¬ Overruns maxBytes s message stamp := by
  refine ⟨fun hle => ?_, size_emit_le hsize⟩
  by_contra hnot
  obtain ⟨hcrlf, hover⟩ := not_or.mp hnot
  -- one byte for a line end is what is counted
  cases newline with
  | lf => exact hcrlf rfl
  | crlf => exact absurd (size_emit_gt hsize (not_not.mp hover)) (Int.not_lt.mpr hle)

/-- The room reserved for the marker makes up for as many line ends. -/
theorem not_overruns_of_lineEnds_le (hroom : InHeadroom maxBytes s (lineOf message))
    (hends : lineEnds (lineOf message) ≤ 128) : ¬ Overruns maxBytes s message stamp := by
  rintro (⟨-, -, hexceed⟩ | ⟨hout, -⟩)
  · unfold InHeadroom markerMaxBytes at hroom
    omega
  · exact hout hroom

/-- In every run whose records do not overrun the cap, across restarts and failing writes,
the file stays under it. -/
theorem size_le_of_reaches (hsize : s.size ≤ maxBytes)
    (h : (machine newline maxBytes).Reaches (Fits newline maxBytes) s t) :
    (t.size : ℤ) ≤ maxBytes := by
  refine Machine.Reaches.invariant (P := fun u : Mirror => (u.size : ℤ) ≤ maxBytes) hsize
    (fun u label v hu hfits hstep => ?_) h
  obtain rfl := Option.some.inj hstep
  cases label with
  | restart => exact hu
  | emit message stamp io =>
    cases message with
    | none => exact hu
    | some message => exact size_emit_le hu hfits

/-- A record that overruns the cap reaches a file beyond it. -/
theorem exists_size_gt (hsize : s.size ≤ maxBytes) (hover : Overruns maxBytes s message stamp) :
    ∃ t, (machine .crlf maxBytes).Reachable s t ∧ maxBytes < t.size :=
  ⟨_, .single (i := .emit (some message) stamp .done) trivial rfl, size_emit_gt hsize hover⟩

/-- A file with room for one short line before the reserved band, and a new handler. -/
def nearCap : Mirror := ⟨some (List.replicate 10485600 0), false⟩

theorem size_nearCap : nearCap.size = 10485600 := List.length_replicate

/-- When the records arrive. -/
def noon : Text := "2026-10-03 12:00:00".toList

def bootRecord : Text := "boot".toList

def moduleRecord : Text := "loading module EBOOT.BIN at 0x08804000".toList

/-- A record that fits, and one that the full marker takes the place of. -/
def crossingRun : List Label :=
  [.emit (some bootRecord) noon .done, .emit (some moduleRecord) noon .done]

/-- With two bytes for a line end, the first record is written and then a marker. -/
theorem size_le_crossing :
    ∃ t, (machine .crlf mirrorMaxBytes).run nearCap crossingRun = some t ∧
      t.capMarked = true ∧ (t.size : ℤ) ≤ mirrorMaxBytes := by
  have hroom : InHeadroom mirrorMaxBytes nearCap (lineOf bootRecord) := by
    rw [InHeadroom, size_nearCap]
    decide
  obtain ⟨s, hs⟩ : ∃ s, emit .crlf mirrorMaxBytes nearCap (some bootRecord) noon .done = s :=
    ⟨_, rfl⟩
  have hfirst : s = nearCap.append .crlf (lineOf bootRecord) .done := by
    rw [← hs, emit, if_neg (by decide), if_neg (by rw [size_nearCap]; decide), if_pos hroom]
  have hsize : s.size = 10485606 := by
    rw [hfirst, size_append_done, size_nearCap]
    decide
  -- the line of the second record reaches into the reserved band
  have hout : ¬ InHeadroom mirrorMaxBytes s (lineOf moduleRecord) := by
    rw [InHeadroom, hsize]
    decide
  have hfull : ¬ s.size + (encode (fullCapMarker mirrorMaxBytes noon)).length >
      mirrorMaxBytes := by
    rw [hsize]
    decide
  have hfits : ¬ Overruns mirrorMaxBytes s moduleRecord noon := by
    rintro (⟨hin, -⟩ | ⟨-, -, hends | ⟨hlong, -⟩⟩)
    · exact hout hin
    · rw [LineEndsExceed, hsize] at hends
      exact absurd hends (by decide)
    · exact hfull hlong
  have hsecond : emit .crlf mirrorMaxBytes s (some moduleRecord) noon .done =
      ({ s with capMarked := true } : Mirror).append .crlf
        (fullCapMarker mirrorMaxBytes noon) .done := by
    have hmarked : ¬ s.capMarked = true := by
      rw [hfirst]
      exact Bool.false_ne_true
    rw [emit, if_neg (by decide), if_neg (by rw [hsize]; decide), if_neg hout, writeCapMarker,
      if_neg hmarked]
    exact if_neg hfull
  have hfirstFits : Fits .crlf mirrorMaxBytes nearCap (.emit (some bootRecord) noon .done) :=
    Or.inr (not_overruns_of_lineEnds_le hroom (by decide))
  have hsecondFits : Fits .crlf mirrorMaxBytes s (.emit (some moduleRecord) noon .done) :=
    Or.inr hfits
  have hstep : (machine .crlf mirrorMaxBytes).step nearCap
      (.emit (some bootRecord) noon .done) = some s := congrArg some hs
  have hreaches : (machine .crlf mirrorMaxBytes).Reaches (Fits .crlf mirrorMaxBytes) nearCap
      (emit .crlf mirrorMaxBytes s (some moduleRecord) noon .done) :=
    .tail (.single hfirstFits hstep) hsecondFits rfl
  refine ⟨_, ?_, ?_, size_le_of_reaches (by rw [size_nearCap]; decide) hreaches⟩
  · rw [crossingRun, Machine.run_cons, hstep]
    rfl
  · rw [hsecond]
    rfl

/-- A file with room for the compact marker to the byte, and a new handler. -/
def inReservedBand : Mirror := ⟨some (List.replicate 10485728 0), false⟩

theorem size_inReservedBand : inReservedBand.size = 10485728 := List.length_replicate

/-- The compact marker fits by count; its two line ends take the file beyond the cap. -/
theorem size_inReservedBand_gt :
    inReservedBand.size ≤ mirrorMaxBytes ∧
      ∃ t, (machine .crlf mirrorMaxBytes).Reachable inReservedBand t ∧
        mirrorMaxBytes < t.size := by
  have hsize : inReservedBand.size ≤ mirrorMaxBytes := by
    rw [size_inReservedBand]
    decide
  have hroom : ¬ InHeadroom mirrorMaxBytes inReservedBand (lineOf "boot".toList) := by
    rw [InHeadroom, size_inReservedBand]
    decide
  have hfull : mirrorMaxBytes < inReservedBand.size +
      (encode (fullCapMarker mirrorMaxBytes "2026-10-03 12:00:00".toList)).length := by
    rw [size_inReservedBand]
    decide
  have hends : LineEndsExceed mirrorMaxBytes inReservedBand compactCapMarker := by
    rw [LineEndsExceed, size_inReservedBand]
    decide
  exact ⟨hsize, exists_size_gt hsize (Or.inr ⟨hroom, rfl, Or.inr ⟨hfull, hends⟩⟩)⟩

end Logging
