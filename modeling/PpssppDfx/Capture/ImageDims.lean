import Mathlib.Data.List.Basic
import PpssppDfx.Python.LittleEndian

/-!
# The size of a captured image

A capture comes with the format and the size of its image, which are read from the first bytes: a
PNG has its size at a fixed place, and a JPEG behind segments of any length, which are skipped. A
segment can hold any bytes, also those of another image.

## Main definitions

* `Capture.detectFormat`, `Capture.imageDims` — what is read
* `Capture.Encoded` — the first bytes of the images of a size

## Main results

* `Capture.describes_encoded` — what is read of an image is its format and its size
-/

set_option autoImplicit false

namespace Capture

open Python

abbrev Bytes := List UInt8

/-- `int.from_bytes(data, "big")`. -/
def bigEndian (data : Bytes) : ℕ := littleEndian data.reverse

/-- So many bytes of a number, the high ones first. -/
def bigBytes (size value : ℕ) : Bytes := (lowBytes size value).reverse

@[simp] theorem length_bigBytes (size value : ℕ) : (bigBytes size value).length = size := by
  rw [bigBytes, List.length_reverse, length_lowBytes]

theorem bigEndian_bigBytes {size value : ℕ} (h : value < 256 ^ size) :
    bigEndian (bigBytes size value) = value := by
  rw [bigEndian, bigBytes, List.reverse_reverse, littleEndian_lowBytes h]

/-! ## What is read -/

inductive ImageFormat where
  | png
  | jpeg
  deriving DecidableEq

def pngSignature : Bytes := [0x89, 0x50, 0x4E, 0x47, 0x0D, 0x0A, 0x1A, 0x0A]

/-- `_detect_format`. -/
def detectFormat (data : Bytes) : ImageFormat :=
  if pngSignature.take 4 <+: data then .png
  else if [0xFF, 0xD8, 0xFF] <+: data then .jpeg
  else .png

/-- A marker that no length follows. -/
def isStandalone (marker : UInt8) : Bool := 0xD0 ≤ marker && marker ≤ 0xD9

/-- The loop of `_jpeg_dims`, on what follows the offset. A marker has at least eight bytes behind
it, so the test before its length is read never fails. -/
def jpegScan (data : Bytes) : ℕ × ℕ :=
  match data with
  | b :: marker :: rest =>
    if rest.length < 8 then (0, 0)
    else if b ≠ 0xFF then jpegScan (marker :: rest)
    else if marker = 0xC0 ∨ marker = 0xC2 then
      (bigEndian ((rest.drop 5).take 2), bigEndian ((rest.drop 3).take 2))
    else if isStandalone marker then jpegScan rest
    else if marker = 0xDA then (0, 0)
    else jpegScan (rest.drop (bigEndian (rest.take 2)))
  | _ => (0, 0)
termination_by data.length
decreasing_by
  all_goals
    simp only [List.length_cons, List.length_drop]
    omega

/-- `_jpeg_dims`. -/
def jpegDims (data : Bytes) : ℕ × ℕ := jpegScan (data.drop 2)

/-- `_image_dims`. -/
def imageDims (data : Bytes) : ℕ × ℕ :=
  if pngSignature <+: data then
    if data.length < 24 then (0, 0)
    else (bigEndian ((data.drop 16).take 4), bigEndian ((data.drop 20).take 4))
  else if [0xFF, 0xD8, 0xFF] <+: data then jpegDims data
  else (0, 0)

/-! ## Images -/

/-- The first bytes of a PNG: the signature and the header chunk. -/
def pngHeader (width height : ℕ) : Bytes :=
  pngSignature ++ bigBytes 4 13 ++ [0x49, 0x48, 0x44, 0x52] ++ bigBytes 4 width ++
    bigBytes 4 height

/-- A segment of a JPEG that is no frame header of the two kinds and begins no scan. -/
structure Segment where
  marker : UInt8
  payload : Bytes
  isStandalone_marker : isStandalone marker = false
  marker_ne : marker ≠ 0xC0 ∧ marker ≠ 0xC2 ∧ marker ≠ 0xDA
  payload_lt : payload.length + 2 < 256 ^ 2

def Segment.bytes (s : Segment) : Bytes :=
  0xFF :: s.marker :: (bigBytes 2 (s.payload.length + 2) ++ s.payload)

/-- A baseline or progressive frame header; its components are not looked into. -/
structure FrameHeader where
  progressive : Bool
  precision : UInt8
  width : ℕ
  height : ℕ
  components : Bytes
  width_lt : width < 256 ^ 2
  height_lt : height < 256 ^ 2
  components_ne : components ≠ []

def FrameHeader.bytes (f : FrameHeader) : Bytes :=
  0xFF :: (if f.progressive then 0xC2 else 0xC0) :: (bigBytes 2 (f.components.length + 7) ++
    f.precision :: (bigBytes 2 f.height ++ (bigBytes 2 f.width ++ f.components)))

/-- The first bytes of a JPEG: the start of the image and some segments. -/
def jpegHeader (segments : List Segment) : Bytes :=
  [0xFF, 0xD8] ++ (segments.map Segment.bytes).flatten

/-- The bytes of an image of a format and a size. A JPEG whose scan begins before a frame header of
the two kinds is of no size. -/
inductive Encoded : Bytes → ImageFormat → ℕ × ℕ → Prop
  | png (width height : ℕ) (rest : Bytes) (hwidth : width < 256 ^ 4) (hheight : height < 256 ^ 4) :
      Encoded (pngHeader width height ++ rest) .png (width, height)
  | jpeg (segments : List Segment) (frame : FrameHeader) (rest : Bytes) :
      Encoded (jpegHeader segments ++ (frame.bytes ++ rest)) .jpeg (frame.width, frame.height)
  | scan (segments : List Segment) (rest : Bytes) :
      Encoded (jpegHeader segments ++ (0xFF :: 0xDA :: rest)) .jpeg (0, 0)

/-! ## The loop -/

theorem jpegScan_frame (frame : FrameHeader) (rest : Bytes) :
    jpegScan (frame.bytes ++ rest) = (frame.width, frame.height) := by
  have hcomponents : 0 < frame.components.length := List.length_pos_iff.mpr frame.components_ne
  obtain ⟨l, l', hlength⟩ := List.length_eq_two.mp (length_bigBytes 2 (frame.components.length + 7))
  obtain ⟨h, h', hheight⟩ := List.length_eq_two.mp (length_bigBytes 2 frame.height)
  obtain ⟨w, w', hwidth⟩ := List.length_eq_two.mp (length_bigBytes 2 frame.width)
  rw [FrameHeader.bytes, hlength, hheight, hwidth]
  simp only [List.cons_append, List.nil_append]
  rw [jpegScan, if_neg, if_neg, if_pos]
  · -- the fields are at their places
    simp only [List.drop_succ_cons, List.drop_zero, List.take_succ_cons, List.take_zero]
    rw [← hwidth, ← hheight, bigEndian_bigBytes frame.width_lt, bigEndian_bigBytes frame.height_lt]
  · split
    · exact Or.inr rfl
    · exact Or.inl rfl
  · exact fun h => h rfl
  · simp only [List.length_cons, List.length_append]
    omega

/-- A segment is skipped, unless there is not enough left to look for a frame header. -/
theorem jpegScan_segment (s : Segment) (rest : Bytes) :
    jpegScan (s.bytes ++ rest) = if s.payload.length + rest.length < 6 then (0, 0)
      else jpegScan rest := by
  have hsize : (bigBytes 2 (s.payload.length + 2) ++ s.payload ++ rest).length =
      s.payload.length + rest.length + 2 := by
    rw [List.length_append, List.length_append, length_bigBytes]
    omega
  rw [Segment.bytes]
  simp only [List.cons_append]
  rw [jpegScan, hsize]
  by_cases hshort : s.payload.length + rest.length < 6
  · rw [if_pos hshort, if_pos (by omega)]
  · have htake : (bigBytes 2 (s.payload.length + 2) ++ s.payload ++ rest).take 2 =
        bigBytes 2 (s.payload.length + 2) := by
      rw [List.append_assoc, List.take_left' (length_bigBytes 2 _)]
    have hdrop : (bigBytes 2 (s.payload.length + 2) ++ s.payload ++ rest).drop
        (s.payload.length + 2) = rest := by
      refine List.drop_left' ?_
      rw [List.length_append, length_bigBytes]
      omega
    rw [if_neg hshort, if_neg (by omega), if_neg (fun h => h rfl),
      if_neg (fun h => h.elim s.marker_ne.1 s.marker_ne.2.1),
      if_neg (by simp [s.isStandalone_marker]), if_neg s.marker_ne.2.2, htake,
      bigEndian_bigBytes s.payload_lt, hdrop]

/-- Segments are skipped. -/
theorem jpegScan_segments (segments : List Segment) {rest : Bytes} (h : 6 ≤ rest.length) :
    jpegScan ((segments.map Segment.bytes).flatten ++ rest) = jpegScan rest := by
  induction segments with
  | nil => rfl
  | cons s segments ih =>
    rw [List.map_cons, List.flatten_cons, List.append_assoc, jpegScan_segment, if_neg, ih]
    rw [List.length_append]
    omega

/-- A scan ends the search. -/
theorem jpegScan_scan (segments : List Segment) (rest : Bytes) :
    jpegScan ((segments.map Segment.bytes).flatten ++ (0xFF :: 0xDA :: rest)) = (0, 0) := by
  induction segments with
  | nil =>
    rw [List.map_nil, List.flatten_nil, List.nil_append, jpegScan]
    split
    · rfl
    · rfl
  | cons s segments ih =>
    rw [List.map_cons, List.flatten_cons, List.append_assoc, jpegScan_segment]
    split
    · rfl
    · exact ih

/-! ## What is read of an image -/

theorem imageDims_jpegHeader (segments : List Segment) (rest : Bytes) (h : [0xFF] <+: rest) :
    detectFormat (jpegHeader segments ++ rest) = .jpeg ∧
      imageDims (jpegHeader segments ++ rest) =
        jpegScan ((segments.map Segment.bytes).flatten ++ rest) := by
  have hmagic : ∃ tail, (segments.map Segment.bytes).flatten ++ rest = 0xFF :: tail := by
    cases segments with
    | nil =>
      obtain ⟨tail, rfl⟩ := h
      exact ⟨tail, rfl⟩
    | cons s segments => exact ⟨_, rfl⟩
  obtain ⟨tail, htail⟩ := hmagic
  have hdata : jpegHeader segments ++ rest = 0xFF :: 0xD8 :: 0xFF :: tail := by
    rw [jpegHeader, List.append_assoc, htail]
    rfl
  rw [hdata, htail]
  refine ⟨?_, ?_⟩
  · rw [detectFormat, if_neg, if_pos]
    · exact ⟨tail, rfl⟩
    · rintro ⟨t, ht⟩
      cases ht
  · rw [imageDims, if_neg, if_pos]
    · rfl
    · exact ⟨tail, rfl⟩
    · rintro ⟨t, ht⟩
      cases ht

theorem imageDims_pngHeader {width height : ℕ} (rest : Bytes) (hwidth : width < 256 ^ 4)
    (hheight : height < 256 ^ 4) :
    detectFormat (pngHeader width height ++ rest) = .png ∧
      imageDims (pngHeader width height ++ rest) = (width, height) := by
  have hfields : pngHeader width height ++ rest = pngSignature ++ (bigBytes 4 13 ++
      ([0x49, 0x48, 0x44, 0x52] ++ (bigBytes 4 width ++ (bigBytes 4 height ++ rest)))) := by
    simp only [pngHeader, List.append_assoc]
  have hsignature : pngSignature <+: pngHeader width height ++ rest := ⟨_, hfields.symm⟩
  have hlong : ¬ (pngHeader width height ++ rest).length < 24 := by
    simp only [hfields, List.length_append, length_bigBytes, pngSignature, List.length_cons]
    omega
  have hwidth' : ((pngHeader width height ++ rest).drop 16).take 4 = bigBytes 4 width := by
    have : pngHeader width height ++ rest = (pngSignature ++ bigBytes 4 13 ++
        [0x49, 0x48, 0x44, 0x52]) ++ (bigBytes 4 width ++ (bigBytes 4 height ++ rest)) := by
      simp only [pngHeader, List.append_assoc]
    rw [this, List.drop_left' (by rfl), List.take_left' (length_bigBytes 4 width)]
  have hheight' : ((pngHeader width height ++ rest).drop 20).take 4 = bigBytes 4 height := by
    have : pngHeader width height ++ rest = (pngSignature ++ bigBytes 4 13 ++
        [0x49, 0x48, 0x44, 0x52] ++ bigBytes 4 width) ++ (bigBytes 4 height ++ rest) := by
      simp only [pngHeader, List.append_assoc]
    rw [this, List.drop_left', List.take_left' (length_bigBytes 4 height)]
    rw [List.length_append, length_bigBytes]
    rfl
  refine ⟨if_pos ((List.take_prefix 4 pngSignature).trans hsignature), ?_⟩
  rw [imageDims, if_pos hsignature, if_neg hlong, hwidth', hheight', bigEndian_bigBytes hwidth,
    bigEndian_bigBytes hheight]

/-- What is read of an image is its format and its size. -/
theorem describes_encoded {data : Bytes} {format : ImageFormat} {size : ℕ × ℕ}
    (h : Encoded data format size) : detectFormat data = format ∧ imageDims data = size := by
  cases h with
  | png width height rest hwidth hheight => exact imageDims_pngHeader rest hwidth hheight
  | jpeg segments frame rest =>
    obtain ⟨hformat, hdims⟩ := imageDims_jpegHeader segments (frame.bytes ++ rest) ⟨_, rfl⟩
    refine ⟨hformat, ?_⟩
    rw [hdims, jpegScan_segments, jpegScan_frame]
    simp only [FrameHeader.bytes, List.length_append, List.length_cons, length_bigBytes]
    omega
  | scan segments rest =>
    obtain ⟨hformat, hdims⟩ := imageDims_jpegHeader segments (0xFF :: 0xDA :: rest) ⟨_, rfl⟩
    exact ⟨hformat, hdims.trans (jpegScan_scan segments rest)⟩

/-- A screen of the console. -/
def screenFrame : FrameHeader where
  progressive := false
  precision := 8
  width := 480
  height := 272
  components := [1, 1, 0x11, 0]
  width_lt := by decide
  height_lt := by decide
  components_ne := by decide

/-- A segment that holds a smaller image. -/
def thumbnail : Segment where
  marker := 0xE1
  payload := [0xFF, 0xD8, 0xFF, 0xC0, 0, 11, 8, 0, 16, 0, 16, 1, 1, 0x11, 0]
  isStandalone_marker := by decide
  marker_ne := by decide
  payload_lt := by decide

theorem describes_encoded_thumbnail :
    detectFormat (jpegHeader [thumbnail] ++ (screenFrame.bytes ++ [0xFF, 0xDA])) = .jpeg ∧
      imageDims (jpegHeader [thumbnail] ++ (screenFrame.bytes ++ [0xFF, 0xDA])) = (480, 272) :=
  describes_encoded (.jpeg [thumbnail] screenFrame [0xFF, 0xDA])

end Capture
