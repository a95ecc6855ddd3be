import Mathlib.Tactic.Linarith
import PpssppDfx.Python.Base64
import PpssppDfx.Python.LittleEndian
import PpssppDfx.Semantics.Framing

/-!
# Replay blobs

A replay blob is a base64 text of packed items. An item has a header of 17 bytes: its action,
a timestamp in microseconds and a payload. When the action has bit 0x80 set, the payload
starts with the length of side data that follows the header. `parse_replay_blob_b64` walks the
items to the end of the blob and returns how many there are and when the first and the last
one are played.

What the parser does is stated for any decoder of the base64 text.

## Main definitions

* `Replay.Item` — an item and its bytes
* `Replay.parseReplayBlobB64` — the parser

## Main results

* `parseReplayBlobB64_iff` — the parser accepts the concatenations of items, and no others
-/

set_option autoImplicit false

namespace Replay

open Python Semantics

abbrev Bytes := List UInt8

def replayItemHeaderSize : ℕ := 17

def replayMaskSidedata : UInt8 := 0x80

/-- `base64.b64decode(text, validate=True)`, with the text of the exception that it raises. -/
structure Decoder where
  decode : String → Except String Bytes
  decode_nil_iff : ∀ text blob, decode text = .ok blob → (blob = [] ↔ text = "")

/-- A `ReplayBlobSpan`, its timestamps in microseconds. -/
structure ReplayBlobSpan where
  eventCount : ℕ
  t0Us : ℕ
  endUs : ℕ
  deriving DecidableEq

/-- How the parser ends. -/
inductive Parsed where
  | span (result : ReplayBlobSpan)
  | valueError (message : String)
  /-- The assertion on the timestamps failed. -/
  | assertionError
  deriving DecidableEq

/-! ## The walk -/

/-- The variables at the end of the walk. -/
structure Walked where
  off : ℕ
  count : ℕ
  first : Option ℕ
  last : Option ℕ

/-- The size of the side data of the item at an offset. -/
def sideSize (blob : Bytes) (off : ℕ) : ℕ :=
  if (blob.drop off).headD 0 &&& replayMaskSidedata ≠ 0 then
    littleEndian ((blob.drop (off + 9)).take 4)
  else 0

/-- The timestamp of the item at an offset. -/
def timestamp (blob : Bytes) (off : ℕ) : ℕ := littleEndian ((blob.drop (off + 1)).take 8)

/-- `while off < len(blob)`. -/
def walk (blob : Bytes) (off count : ℕ) (first last : Option ℕ) : Except String Walked :=
  if off < blob.length then
    if blob.length < off + replayItemHeaderSize then
      .error ("truncated replay blob: " ++ toString (blob.length - off) ++
        " trailing bytes at offset " ++ toString off ++ " are smaller than a " ++
        toString replayItemHeaderSize ++ "-byte item header")
    else
      let ts := timestamp blob off
      walk blob (off + replayItemHeaderSize + sideSize blob off) (count + 1)
        (first.or (some ts)) (some ts)
  else .ok ⟨off, count, first, last⟩
termination_by blob.length - off
decreasing_by simp only [replayItemHeaderSize]; omega

/-- `parse_replay_blob_b64`. -/
def parseReplayBlobB64 (d : Decoder) (base64Data : String) : Parsed :=
  if base64Data = "" then .valueError "empty replay blob"
  else
    match d.decode base64Data with
    | .error e => .valueError ("invalid base64 replay blob: " ++ e)
    | .ok blob =>
      match walk blob 0 0 none none with
      | .error message => .valueError message
      | .ok w =>
        if w.off ≠ blob.length then
          .valueError ("corrupt replay blob: sidedata walk ended at " ++ toString w.off ++
            " != " ++ toString blob.length ++ " (bad payload length)")
        else
          match w.first, w.last with
          | some first, some last => .span ⟨w.count, first, last⟩
          | _, _ => .assertionError

/-! ## Items -/

/-- An item: the bytes of its header and of its side data. -/
structure Item where
  action : UInt8
  timestamp : Bytes
  payload : Bytes
  sidedata : Bytes
  length_timestamp : timestamp.length = 8
  length_payload : payload.length = 8
  length_sidedata : sidedata.length =
    if action &&& replayMaskSidedata ≠ 0 then littleEndian (payload.take 4) else 0

namespace Item

/-- The item as it is packed. -/
def bytes (item : Item) : Bytes :=
  item.action :: (item.timestamp ++ item.payload ++ item.sidedata)

/-- The timestamp in microseconds. -/
def micros (item : Item) : ℕ := littleEndian item.timestamp

end Item

/-- The size of the item that a list of bytes starts with. -/
def itemSize (s : Bytes) : ℕ := replayItemHeaderSize + sideSize s 0

theorem sideSize_eq (blob : Bytes) (off : ℕ) : sideSize blob off = sideSize (blob.drop off) 0 := by
  simp [sideSize]

theorem timestamp_eq (blob : Bytes) (off : ℕ) :
    timestamp blob off = timestamp (blob.drop off) 0 := by
  simp [timestamp]

theorem sideSize_append (s t : Bytes) (h : replayItemHeaderSize ≤ s.length) :
    sideSize (s ++ t) 0 = sideSize s 0 := by
  rw [replayItemHeaderSize] at h
  cases s with
  | nil => simp at h
  | cons a rest =>
    have hlength : 4 ≤ ((a :: rest).drop 9).length := by
      rw [List.length_drop]
      omega
    have hdrop : ((a :: rest) ++ t).drop 9 = (a :: rest).drop 9 ++ t :=
      List.drop_append_of_le_length (by omega)
    simp only [sideSize, List.drop_zero, List.cons_append, List.headD_cons, Nat.zero_add]
    rw [← List.cons_append, hdrop, List.take_append_of_le_length hlength]

/-- The items of a blob as frames. -/
def itemFraming : Framing UInt8 where
  header := replayItemHeaderSize
  size := itemSize
  header_pos := by decide
  header_le_size := fun s => Nat.le_add_right _ _
  size_append := fun s t h => by rw [itemSize, itemSize, sideSize_append s t h]

namespace Item

variable (item : Item)

theorem drop_bytes : item.bytes.drop 9 = item.payload ++ item.sidedata := by
  rw [bytes, List.drop_succ_cons, List.append_assoc, ← item.length_timestamp, List.drop_left]

theorem sideSize_bytes : sideSize item.bytes 0 = item.sidedata.length := by
  have hpayload : 4 ≤ item.payload.length := by
    rw [item.length_payload]
    decide
  rw [sideSize, Nat.zero_add, drop_bytes, List.take_append_of_le_length hpayload,
    item.length_sidedata]
  rfl

theorem length_bytes : item.bytes.length = replayItemHeaderSize + item.sidedata.length := by
  simp only [bytes, List.length_cons, List.length_append, item.length_timestamp,
    item.length_payload, replayItemHeaderSize]
  omega

/-- A packed item is a frame. -/
theorem isFrame_bytes : itemFraming.IsFrame item.bytes :=
  item.length_bytes.trans (congrArg (replayItemHeaderSize + ·) item.sideSize_bytes.symm)

theorem timestamp_bytes : Replay.timestamp item.bytes 0 = item.micros := by
  rw [Replay.timestamp, bytes, List.drop_succ_cons, List.drop_zero, List.append_assoc,
    ← item.length_timestamp, List.take_left, micros]

end Item

/-- A frame is a packed item. -/
theorem exists_item {r : Bytes} (h : itemFraming.IsFrame r) : ∃ item : Item, item.bytes = r := by
  have hheader : 17 ≤ r.length := h.header_le
  have hlength : r.length = 17 + sideSize r 0 := h
  cases r with
  | nil => simp at hheader
  | cons action rest =>
    rw [List.length_cons] at hheader hlength
    -- eight bytes of a timestamp and eight of a payload stand behind the action
    refine ⟨⟨action, rest.take 8, (rest.drop 8).take 8, rest.drop 16, ?_, ?_, ?_⟩, ?_⟩
    · rw [List.length_take]
      omega
    · rw [List.length_take, List.length_drop]
      omega
    · have hside : sideSize (action :: rest) 0 =
          if action &&& replayMaskSidedata ≠ 0 then littleEndian (((rest.drop 8).take 8).take 4)
          else 0 := by
        rw [List.take_take]
        rfl
      rw [List.length_drop, ← hside]
      omega
    · rw [Item.bytes, ← List.take_add, List.take_append_drop]

/-- Frames are packed items, one by one. -/
theorem exists_items {frames : List Bytes} (h : ∀ r ∈ frames, itemFraming.IsFrame r) :
    ∃ items : List Item, items.map Item.bytes = frames := by
  induction frames with
  | nil => exact ⟨[], rfl⟩
  | cons r rest ih =>
    obtain ⟨item, hitem⟩ := exists_item (h r List.mem_cons_self)
    obtain ⟨items, hitems⟩ := ih fun r' hr' => h r' (List.mem_cons_of_mem _ hr')
    exact ⟨item :: items, by rw [List.map_cons, hitem, hitems]⟩

theorem frames_items (items : List Item) :
    itemFraming.Frames (items.flatMap Item.bytes) (items.map Item.bytes) := by
  refine ⟨List.flatMap_def, fun r hr => ?_⟩
  obtain ⟨item, -, rfl⟩ := List.mem_map.mp hr
  exact item.isFrame_bytes

/-! ## What the walk finds -/

variable {blob : Bytes} {off count : ℕ} {first last : Option ℕ}

/-- The walk stops at once behind the blob. -/
theorem walk_over (h : blob.length ≤ off) :
    walk blob off count first last = .ok ⟨off, count, first, last⟩ := by
  rw [walk, if_neg (not_lt.mpr h)]

/-- The timestamp of a frame at the start of a list. -/
theorem timestamp_of_frame (s : Bytes) :
    timestamp (s.take (itemFraming.size s)) 0 = timestamp s 0 := by
  have hheader : 17 ≤ itemFraming.size s := itemFraming.header_le_size s
  rw [timestamp, timestamp, List.drop_take, List.take_take, min_eq_left (by omega)]

/-- A pass of the walk over a header. -/
theorem walk_step (h : off + replayItemHeaderSize ≤ blob.length) :
    walk blob off count first last =
      walk blob (off + itemSize (blob.drop off)) (count + 1)
        (first.or (some (timestamp (blob.drop off) 0))) (some (timestamp (blob.drop off) 0)) := by
  have hpos : 0 < replayItemHeaderSize := by decide
  rw [walk, if_pos (by omega), if_neg (not_lt.mpr h), itemSize, ← sideSize_eq, ← timestamp_eq,
    Nat.add_assoc]

/-- Over items the walk goes to the end of the blob and keeps the first and the last
timestamp. -/
theorem walk_of_frames {items : List Item} (hoff : off ≤ blob.length)
    (h : itemFraming.Frames (blob.drop off) (items.map Item.bytes)) :
    walk blob off count first last = .ok ⟨blob.length, count + items.length,
      first.or (items.head?.map Item.micros), (items.getLast?.map Item.micros).or last⟩ := by
  induction items generalizing off count first last with
  | nil =>
    have hend : blob.length ≤ off := List.drop_eq_nil_iff.mp (Framing.frames_nil_iff.mp h)
    rw [walk_over hend, le_antisymm hoff hend]
    simp
  | cons item rest ih =>
    obtain ⟨hsize, hitem, hrest⟩ := Framing.frames_cons_iff.mp h
    have hheader : replayItemHeaderSize ≤ itemSize (blob.drop off) := Nat.le_add_right _ _
    have hnext : off + itemSize (blob.drop off) ≤ blob.length := by
      have hdrop : (blob.drop off).length = blob.length - off := List.length_drop
      have hfits : itemSize (blob.drop off) ≤ (blob.drop off).length := hsize
      omega
    have hts : timestamp (blob.drop off) 0 = item.micros := by
      rw [← timestamp_of_frame, ← hitem, item.timestamp_bytes]
    rw [List.drop_drop] at hrest
    rw [walk_step (by omega), ih hnext hrest, hts, List.length_cons, List.head?_cons,
      Option.map_some, List.getLast?_cons, Option.map_some, Option.or_some]
    have hlast : (rest.getLast?.map Item.micros).or (some item.micros) =
        some ((rest.getLast?.getD item).micros) := by
      cases rest.getLast? <;> rfl
    rw [hlast, Nat.add_assoc, Nat.add_comm 1]
    rfl

/-- A walk that ends with the blob went over items. -/
theorem frames_of_walk {w : Walked} (h : walk blob off count first last = .ok w)
    (hend : w.off = blob.length) : off ≤ blob.length ∧
      ∃ frames, itemFraming.Frames (blob.drop off) frames := by
  fun_induction walk blob off count first last with
  | case1 off count first last hwithin hshort => cases h
  -- the walk went on behind the item, and ended with the blob
  | case2 off count first last hwithin hlong ts ih =>
    obtain ⟨hnext, frames, hframes⟩ := ih h
    have hsize : replayItemHeaderSize + sideSize blob off = itemSize (blob.drop off) :=
      congrArg (replayItemHeaderSize + ·) (sideSize_eq blob off)
    rw [Nat.add_assoc, hsize] at hnext hframes
    rw [← List.drop_drop] at hframes
    refine ⟨hwithin.le, _ :: frames, Framing.frames_cons_iff.mpr ⟨?_, rfl, hframes⟩⟩
    have hfits : itemSize (blob.drop off) ≤ (blob.drop off).length := by
      rw [List.length_drop]
      omega
    exact hfits
  | case3 off count first last hover =>
    cases h
    refine ⟨le_of_eq hend, [], Framing.frames_nil_iff.mpr ?_⟩
    exact List.drop_eq_nil_iff.mpr (le_of_eq hend.symm)

/-! ## The parser -/

/-- The span of one or more items. -/
def spanOf (item : Item) (rest : List Item) : ReplayBlobSpan where
  eventCount := rest.length + 1
  t0Us := item.micros
  endUs := (rest.getLastD item).micros

variable {d : Decoder} {base64Data : String}

/-- A text of items is parsed. -/
theorem parse_of_items {item : Item} {rest : List Item}
    (h : d.decode base64Data = .ok ((item :: rest).flatMap Item.bytes)) :
    parseReplayBlobB64 d base64Data = .span (spanOf item rest) := by
  -- an empty text decodes to nothing, and an item has its header
  have htext : base64Data ≠ "" := by
    intro hempty
    have hnil := (d.decode_nil_iff _ _ h).mpr hempty
    rw [List.flatMap_cons, Item.bytes] at hnil
    cases hnil
  have hwalk : walk ((item :: rest).flatMap Item.bytes) 0 0 none none = .ok ⟨_, _, _, _⟩ :=
    walk_of_frames (Nat.zero_le _) (frames_items (item :: rest))
  rw [parseReplayBlobB64, if_neg htext, h]
  dsimp only
  rw [hwalk, List.getLast?_cons, ← List.getLastD_eq_getLast?]
  dsimp only
  rw [if_neg (not_not.mpr rfl), Nat.zero_add]
  rfl

/-- Any other text raises a `ValueError`. -/
theorem parse_of_other
    (h : ¬ ∃ item rest, d.decode base64Data = .ok ((item :: rest).flatMap Item.bytes)) :
    ∃ message, parseReplayBlobB64 d base64Data = .valueError message := by
  unfold parseReplayBlobB64
  split
  · exact ⟨_, rfl⟩
  · rename_i htext
    cases hdecode : d.decode base64Data with
    | error e => exact ⟨_, rfl⟩
    | ok blob =>
      dsimp only
      cases hwalk : walk blob 0 0 none none with
      | error message => exact ⟨_, rfl⟩
      | ok w =>
        dsimp only
        by_cases hend : w.off = blob.length
        -- the walk went over items, and over one at least
        · obtain ⟨-, frames, hflat, hframes⟩ := frames_of_walk hwalk hend
          obtain ⟨items, rfl⟩ := exists_items hframes
          rw [List.drop_zero, ← List.flatMap_def] at hflat
          cases items with
          | nil => exact absurd ((d.decode_nil_iff _ _ hdecode).mp hflat) htext
          | cons item rest => exact absurd ⟨item, rest, hflat ▸ hdecode⟩ h
        · exact ⟨_, if_pos hend⟩

/-- The parser accepts the texts that decode to a concatenation of one or more items, with the
number of items and the first and the last timestamp, and raises a `ValueError` otherwise. -/
theorem parseReplayBlobB64_iff (d : Decoder) (base64Data : String) :
    (∀ span, parseReplayBlobB64 d base64Data = .span span ↔
      ∃ item rest, d.decode base64Data = .ok ((item :: rest).flatMap Item.bytes) ∧
        span = spanOf item rest) ∧
      ((¬ ∃ item rest, d.decode base64Data = .ok ((item :: rest).flatMap Item.bytes)) →
        ∃ message, parseReplayBlobB64 d base64Data = .valueError message) := by
  refine ⟨fun span => ⟨fun hparse => ?_, ?_⟩, parse_of_other⟩
  · by_cases h : ∃ item rest, d.decode base64Data = .ok ((item :: rest).flatMap Item.bytes)
    · obtain ⟨item, rest, hdecode⟩ := h
      rw [parse_of_items hdecode] at hparse
      cases hparse
      exact ⟨item, rest, hdecode, rfl⟩
    · obtain ⟨message, hraised⟩ := parse_of_other h
      rw [hraised] at hparse
      cases hparse
  · rintro ⟨item, rest, hdecode, rfl⟩
    exact parse_of_items hdecode

/-! ## A decoder -/

/-- The decoder of the language. -/
def strictDecoder : Decoder where
  decode text := b64decode text.toList
  decode_nil_iff _ _ h := (b64decode_nil_iff h).trans String.toList_eq_nil_iff

/-- One press of a button at two seconds. -/
example : strictDecoder.decode "AYCEHgAAAAAAAQAAAAAAAAA=" =
    .ok [1, 0x80, 0x84, 0x1e, 0, 0, 0, 0, 0, 1, 0, 0, 0, 0, 0, 0, 0] := by
  decide

end Replay
