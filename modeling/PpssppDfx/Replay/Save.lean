import Mathlib.Logic.Function.Basic
import PpssppDfx.Python.Base64
import PpssppDfx.Python.Value

/-!
# Saving a replay

A save flushes the recorder of the emulator, asks for the base RTC and writes both to a file.
The flush takes the recording out of the emulator, so from then on the server holds the only
copy. When the write fails with an `OSError`, the recording goes to a rescue file instead.

The model starts where the flush has returned. The answers to the calls that follow are inputs:
what they return, that they raise, or that the task is cancelled while it waits. A write runs
in a thread, which a cancellation does not stop; what counts is how far the thread has got when
the operation exits. What `int` makes of a value is a parameter.

## Main definitions

* `Replay.save` — the operation from the flush on
* `Replay.Preserved` — the payload is in the requested file or in the rescue file
* `Replay.Survives` — by the answers, a file ends up with the payload

## Main results

* `Replay.preserved_iff_survives` — when a payload is not lost
* `Replay.heldIn_of_saved`, `Replay.heldIn_of_rescued` — a file that the operation names to its
  caller holds the payload
-/

set_option autoImplicit false

namespace Replay

open Python Function

/-- A `.ppr` document. -/
structure PPRFile where
  version : ℤ
  base64 : String
  baseRtc : ℤ
  recordedAt : String
  sessionNote : String

/-- The text of a file: that of a document, or any other. -/
inductive Content where
  | document (ppr : PPRFile)
  | fragment

abbrev Files := String → Option Content

/-- What a write has left of its file: it has not opened the file, it has cut it off and not
written all of the text, or it has written all of it. -/
inductive Left where
  | untouched
  | fragment
  | whole
  deriving DecidableEq

/-- The end of a write, seen from the task that waits for it. -/
inductive WriteOutcome where
  | complete
  | osError (kind : String) (left : Left)
  | otherError (reason : String) (left : Left)
  | cancelled (left : Left)

def WriteOutcome.left : WriteOutcome → Left
  | .complete => .whole
  | .osError _ left => left
  | .otherError _ left => left
  | .cancelled left => left

/-- `path.write_text(json.dumps(doc.to_dict(), indent=2))`, as far as it gets. -/
def writeText (files : Files) (path : String) (doc : PPRFile) : Left → Files
  | .untouched => files
  | .fragment => update files path (some .fragment)
  | .whole => update files path (some (.document doc))

/-- The answer to a call over the connection. -/
inductive Answer (α : Type) where
  | returned (a : α)
  | raised (reason : String)
  | cancelled

/-- The arguments of the operation; the path is resolved before the session is opened. -/
structure Request where
  filePath : String
  path : String
  sessionNote : String

/-- What the calls after the flush answer. A directory that cannot be made gives an error.
`rescueName` is made of the time; `resolve` is `resolve_output_path` below `replays`. -/
structure Answers where
  timeGet : Answer Dict
  recordedAt : String
  mkdir : Option String
  write : WriteOutcome
  rescueName : String
  resolve : String → Except String String
  rescueMkdir : Option String
  rescueRecordedAt : String
  rescueWrite : WriteOutcome

/-- `resolve_output_path("replays", rescue_name)`. -/
def Answers.rescuePath (a : Answers) : Except String String := a.resolve a.rescueName

structure ReplayResult where
  version : ℤ
  size : ℕ
  base64 : String
  baseRtc : ℤ
  filePath : String

/-- How the operation ends. -/
inductive Exit where
  | saved (result : ReplayResult)
  | replayEmpty
  | writeFailed (kind : String) (rescued : Option String) (size : ℕ)
  | raised (reason : String)
  | cancelled

/-- The operation tells its caller of a file that holds the recording. -/
def Exit.named : Exit → Bool
  | .saved _ => true
  | .writeFailed _ (some _) _ => true
  | _ => false

/-- The file that the operation tells its caller of is at a path: at the one in the result, or at
the one that the name in the error resolves to. -/
def Exit.Names (resolve : String → Except String String) (path : String) : Exit → Prop
  | .saved result => result.filePath = path
  | .writeFailed _ (some name) _ => resolve name = .ok path
  | _ => False

/-- The code and the text of the tool error that an end stands for. -/
def Exit.toolError (q : Request) : Exit → Option (String × String)
  | .replayEmpty => some ("REPLAY_EMPTY",
      "no frames captured — the replay recorder was empty at save time (record: begin → " ++
      "advance a few gameplay frames → save). The flush already consumed the empty recording " ++
      "and NO .ppr file was written.")
  | .writeFailed kind rescued size =>
    let place := match rescued with
      | some name => "the rescue file " ++ strRepr name ++
          " — replay(action='load', file_path=" ++ strRepr name ++ ") restores it"
      | none => "but could NOT be rescued to disk"
    some ("INTERNAL", "failed to write .ppr file " ++ q.filePath ++ ": " ++ kind ++
      ". The recording was already flushed from PPSSPP and is preserved at " ++ place ++
      ". base64 payload size=" ++ toString size ++ ".")
  | _ => none

/-- `_compute_base64_size`: the empty text and one that is no base64 have no size. -/
def computeBase64Size (b64 : String) : ℕ :=
  match b64decode b64.toList with
  | .ok bytes => bytes.length
  | .error _ => 0

/-- `flush_resp.get("version", 0)`. -/
def flushVersion (flushResp : Dict) : Value := (flushResp.get? "version").getD (.int 0)

/-- `str(flush_resp.get("base64", ""))`. -/
def payload (flushResp : Dict) : String := ((flushResp.get? "base64").getD (.str "")).text

/-- `time_resp.get("value", 0)`. -/
def timeValue (timeResp : Dict) : Value := (timeResp.get? "value").getD (.int 0)

section Operation

variable (int : Value → Except String ℤ) (q : Request) (flushResp : Dict) (a : Answers)
  (files : Files)

/-- The handler of a failed write. `doc` is the document that was not written. -/
def rescue (kind : String) (doc : PPRFile) : Files × Exit :=
  let size := computeBase64Size doc.base64
  -- the path is resolved outside the `try` of the rescue, so its error leaves the handler
  match a.rescuePath with
  | .error reason => (files, .raised reason)
  | .ok path =>
    match a.rescueMkdir with
    | some _ => (files, .writeFailed kind none size)
    | none =>
      let files' := writeText files path { doc with recordedAt := a.rescueRecordedAt }
        a.rescueWrite.left
      match a.rescueWrite with
      | .complete => (files', .writeFailed kind (some a.rescueName) size)
      | .cancelled _ => (files', .cancelled)
      | _ => (files', .writeFailed kind none size)

/-- The operation, from the return of `replay_flush` on. -/
def save : Files × Exit :=
  match int (flushVersion flushResp) with
  | .error reason => (files, .raised reason)
  | .ok version =>
    let b64 := payload flushResp
    let size := computeBase64Size b64
    -- an empty recording and a payload that is no base64 count alike
    if size ≤ 0 then (files, .replayEmpty)
    else match a.timeGet with
      | .raised reason => (files, .raised reason)
      | .cancelled => (files, .cancelled)
      | .returned timeResp =>
        match int (timeValue timeResp) with
        | .error reason => (files, .raised reason)
        | .ok baseRtc =>
          let doc : PPRFile := ⟨version, b64, baseRtc, a.recordedAt, q.sessionNote⟩
          -- an error of `mkdir` is no error of the write: nothing is rescued
          match a.mkdir with
          | some reason => (files, .raised reason)
          | none =>
            let files' := writeText files q.path doc a.write.left
            match a.write with
            | .complete => (files', .saved ⟨version, size, b64, baseRtc, q.path⟩)
            -- only an OSError gets to the handler
            | .osError kind _ => rescue a files' kind doc
            | .otherError reason _ => (files', .raised reason)
            | .cancelled _ => (files', .cancelled)

end Operation

section Files

variable {files : Files} {path other b64 : String} {doc : PPRFile} {left : Left}

/-- A file holds a document with the payload. -/
def HeldIn (files : Files) (path b64 : String) : Prop :=
  ∃ doc, files path = some (.document doc) ∧ doc.base64 = b64

/-- Whether a file has the payload after a write of the payload, given whether it had it
before. -/
def Left.keeps (before : Prop) : Left → Prop
  | .untouched => before
  | .fragment => False
  | .whole => True

theorem heldIn_writeText_self (hdoc : doc.base64 = b64) :
    HeldIn (writeText files path doc left) path b64 ↔ left.keeps (HeldIn files path b64) := by
  cases left with
  | untouched => exact Iff.rfl
  | fragment => simp [HeldIn, writeText, Left.keeps]
  | whole => simp [HeldIn, writeText, Left.keeps, hdoc]

theorem heldIn_writeText_of_ne (h : other ≠ path) :
    HeldIn (writeText files path doc left) other b64 ↔ HeldIn files other b64 := by
  cases left <;> simp [HeldIn, writeText, update_of_ne h]

end Files

section Survival

variable (int : Value → Except String ℤ) (q : Request) (flushResp : Dict) (a : Answers)
  (files : Files)

/-- Every step between the flush and the write succeeds. -/
structure ReachesWrite : Prop where
  version : ∃ version, int (flushVersion flushResp) = .ok version
  time : ∃ timeResp baseRtc, a.timeGet = .returned timeResp ∧ int (timeValue timeResp) = .ok baseRtc
  mkdir : a.mkdir = none

/-- The write of the requested file fails with an `OSError`, and a file is there to rescue the
recording to. -/
structure ReachesRescue (path : String) : Prop where
  write : ReachesWrite int flushResp a
  osError : ∃ kind left, a.write = .osError kind left
  rescuePath : a.rescuePath = .ok path
  rescueMkdir : a.rescueMkdir = none

/-- A file ends up with the payload: the rescue writes all of it, or the first write does and
the rescue does not cut it off, or the file had the payload and no write cuts it off. -/
def Survives (path : String) : Prop :=
  ReachesRescue int flushResp a path ∧ a.rescueWrite.left = .whole ∨
  (ReachesWrite int flushResp a ∧ path = q.path) ∧ a.write.left = .whole ∧
    ¬(ReachesRescue int flushResp a path ∧ a.rescueWrite.left = .fragment) ∨
  HeldIn files path (payload flushResp) ∧
    ¬((ReachesWrite int flushResp a ∧ path = q.path) ∧ a.write.left = .fragment) ∧
    ¬(ReachesRescue int flushResp a path ∧ a.rescueWrite.left = .fragment)

/-- What the operation does to the files and how it ends, once it has a payload. -/
inductive Saves : Files × Exit → Prop
  | stopped {exit : Exit} (hnot : ¬ReachesWrite int flushResp a) (hexit : exit.named = false) :
      Saves (files, exit)
  | ended {doc : PPRFile} {exit : Exit} (hreach : ReachesWrite int flushResp a)
      (hdoc : doc.base64 = payload flushResp) (hno : ¬∃ kind left, a.write = .osError kind left)
      (hexit : exit.named = true → a.write = .complete ∧ ∃ version size baseRtc,
        exit = .saved ⟨version, size, payload flushResp, baseRtc, q.path⟩) :
      Saves (writeText files q.path doc a.write.left, exit)
  | failed {doc : PPRFile} {kind : String} (hreach : ReachesWrite int flushResp a)
      (hdoc : doc.base64 = payload flushResp) (hos : ∃ kind left, a.write = .osError kind left) :
      Saves (rescue a (writeText files q.path doc a.write.left) kind doc)

variable {int q flushResp a files} {path : String}

theorem save_saves (hsize : 0 < computeBase64Size (payload flushResp)) :
    Saves int q flushResp a files (save int q flushResp a files) := by
  rw [save]
  -- each call before the write may be the one that ends the operation
  cases hversion : int (flushVersion flushResp) with
  | error reason =>
    have hnot : ¬ReachesWrite int flushResp a := fun h => by simpa [hversion] using h.version
    exact .stopped hnot rfl
  | ok version =>
    simp only [if_neg (Nat.not_le.mpr hsize)]
    cases htime : a.timeGet with
    | raised reason =>
      have hnot : ¬ReachesWrite int flushResp a := fun h => by simpa [htime] using h.time
      exact .stopped hnot rfl
    | cancelled =>
      have hnot : ¬ReachesWrite int flushResp a := fun h => by simpa [htime] using h.time
      exact .stopped hnot rfl
    | returned timeResp =>
      dsimp only
      cases hrtc : int (timeValue timeResp) with
      | error reason =>
        have hnot : ¬ReachesWrite int flushResp a := fun h => by
          simpa [htime, hrtc] using h.time
        exact .stopped hnot rfl
      | ok baseRtc =>
        cases hmkdir : a.mkdir with
        | some reason =>
          have hnot : ¬ReachesWrite int flushResp a := fun h => by simpa [hmkdir] using h.mkdir
          exact .stopped hnot rfl
        | none =>
          have hreach : ReachesWrite int flushResp a :=
            ⟨⟨version, hversion⟩, ⟨timeResp, baseRtc, htime, hrtc⟩, hmkdir⟩
          dsimp only
          split
          next hwrite =>
            exact .ended hreach rfl (by simp [hwrite]) fun _ => ⟨hwrite, _, _, _, rfl⟩
          next kind left hwrite => exact .failed hreach rfl ⟨kind, left, hwrite⟩
          next reason left hwrite =>
            exact .ended hreach rfl (by simp [hwrite]) (by simp [Exit.named])
          next left hwrite =>
            exact .ended hreach rfl (by simp [hwrite]) (by simp [Exit.named])

/-- After a rescue, a file that the rescue does not write is as it was. -/
theorem heldIn_rescue_of_not {kind b64 : String} {doc : PPRFile}
    (h : ¬(a.rescuePath = .ok path ∧ a.rescueMkdir = none)) :
    HeldIn (rescue a files kind doc).1 path b64 ↔ HeldIn files path b64 := by
  rw [rescue]
  cases hpath : a.rescuePath with
  | error reason => exact Iff.rfl
  | ok other =>
    cases hmkdir : a.rescueMkdir with
    | some reason => exact Iff.rfl
    | none =>
      have hne : path ≠ other := fun heq => h ⟨by rw [hpath, heq], hmkdir⟩
      dsimp only
      split <;> exact heldIn_writeText_of_ne hne

/-- After a rescue, the rescue file is as the write leaves it. -/
theorem heldIn_rescue {kind b64 : String} {doc : PPRFile} (hdoc : doc.base64 = b64)
    (hpath : a.rescuePath = .ok path) (hmkdir : a.rescueMkdir = none) :
    HeldIn (rescue a files kind doc).1 path b64 ↔
      a.rescueWrite.left.keeps (HeldIn files path b64) := by
  simp only [rescue, hpath, hmkdir]
  split <;> exact heldIn_writeText_self hdoc

/-- The requested file after the first write. -/
theorem heldIn_write {b64 : String} {doc : PPRFile} {left : Left} (hdoc : doc.base64 = b64) :
    HeldIn (writeText files q.path doc left) path b64 ↔
      path = q.path ∧ left = .whole ∨
        HeldIn files path b64 ∧ ¬(path = q.path ∧ left = .fragment) := by
  by_cases hpath : path = q.path
  · subst hpath
    rw [heldIn_writeText_self hdoc]
    cases left <;> simp [Left.keeps]
  · rw [heldIn_writeText_of_ne hpath]
    simp [hpath]

/-- A file ends up with the payload exactly when it survives. -/
theorem heldIn_save_iff (hsize : 0 < computeBase64Size (payload flushResp)) :
    HeldIn (save int q flushResp a files).1 path (payload flushResp) ↔
      Survives int q flushResp a files path := by
  have hsaves : Saves int q flushResp a files (save int q flushResp a files) := save_saves hsize
  generalize save int q flushResp a files = r at hsaves
  rw [Survives]
  -- the cases are those of `Saves`: no write, one write, a write and a rescue
  cases hsaves with
  | stopped hnot _ =>
    have hnotRescue : ¬ReachesRescue int flushResp a path := fun h => hnot h.write
    simp [hnot, hnotRescue]
  | ended hreach hdoc hno _ =>
    have hnotRescue : ¬ReachesRescue int flushResp a path := fun h => hno h.osError
    rw [heldIn_write hdoc]
    simp [hreach, hnotRescue]
  | failed hreach hdoc hos =>
    -- the rescue writes after the first write, perhaps to the same file
    by_cases hrescue : a.rescuePath = .ok path ∧ a.rescueMkdir = none
    · have hreaches : ReachesRescue int flushResp a path :=
        ⟨hreach, hos, hrescue.1, hrescue.2⟩
      rw [heldIn_rescue hdoc hrescue.1 hrescue.2, heldIn_write hdoc]
      cases a.rescueWrite.left <;> simp [Left.keeps, hreach, hreaches]
    · have hnotRescue : ¬ReachesRescue int flushResp a path := fun h =>
        hrescue ⟨h.rescuePath, h.rescueMkdir⟩
      rw [heldIn_rescue_of_not hrescue, heldIn_write hdoc]
      simp [hreach, hnotRescue]

/-- When the operation exits, the payload is in the requested file or in the rescue file. -/
def Preserved (q : Request) (a : Answers) (files : Files) (b64 : String) : Prop :=
  HeldIn files q.path b64 ∨ ∃ path, a.rescuePath = .ok path ∧ HeldIn files path b64

/-- A flushed payload is not lost exactly when one of the two files survives with it. -/
theorem preserved_iff_survives (hsize : 0 < computeBase64Size (payload flushResp)) :
    Preserved q a (save int q flushResp a files).1 (payload flushResp) ↔
      Survives int q flushResp a files q.path ∨
        ∃ path, a.rescuePath = .ok path ∧ Survives int q flushResp a files path := by
  simp only [Preserved, heldIn_save_iff hsize]

end Survival

section Recording

/-- `int` on integers; the other values do not occur below. -/
def integerOnly : Value → Except String ℤ
  | .int n => .ok n
  | _ => .error "TypeError"

/-- A recording of three bytes. -/
def flushed : Dict := [(.str "version", .int 7), (.str "base64", .str "AAEC")]

def recordingRequest : Request := ⟨"rec.ppr", "replays/rec.ppr", ""⟩

/-- A directory is in the way of the requested file. -/
def directoryInTheWay : Answers where
  timeGet := .returned [(.str "value", .int 1785051771)]
  recordedAt := "1785051799.18"
  mkdir := none
  write := .osError "IsADirectoryError" .untouched
  rescueName := "replay_rescue_20260908_120000.ppr"
  resolve := fun name =>
    if name = "replay_rescue_20260908_120000.ppr" then
      .ok "replays/replay_rescue_20260908_120000.ppr"
    else .error "ArgsInvalid"
  rescueMkdir := none
  rescueRecordedAt := "1785051799.19"
  rescueWrite := .complete

/-- A recording that goes to the rescue file. -/
theorem preserved_directoryInTheWay :
    Preserved recordingRequest directoryInTheWay
      (save integerOnly recordingRequest flushed directoryInTheWay fun _ => none).1
      (payload flushed) := by
  have hreach : ReachesWrite integerOnly flushed directoryInTheWay :=
    ⟨⟨7, rfl⟩, ⟨_, 1785051771, rfl, rfl⟩, rfl⟩
  have hrescue : ReachesRescue integerOnly flushed directoryInTheWay
      "replays/replay_rescue_20260908_120000.ppr" :=
    ⟨hreach, ⟨_, _, rfl⟩, rfl, rfl⟩
  exact (preserved_iff_survives (by decide +kernel)).mpr
    (.inr ⟨_, rfl, .inl ⟨hrescue, rfl⟩⟩)

/-- The emulator does not answer the time query. -/
def timeQueryFails : Answers :=
  { directoryInTheWay with timeGet := .raised "TimeoutError" }

/-- A recording that is lost with the time query: the operation writes no file. -/
theorem not_preserved_timeQueryFails :
    ¬ ∀ (q : Request) (flushResp : Dict) (a : Answers) (files : Files),
      0 < computeBase64Size (payload flushResp) →
      Preserved q a (save integerOnly q flushResp a files).1 (payload flushResp) := by
  intro h
  have hlost := h recordingRequest flushed timeQueryFails (fun _ => none) (by decide +kernel)
  have hfiles : (save integerOnly recordingRequest flushed timeQueryFails fun _ => none).1 =
      fun _ => none := by rfl
  rw [hfiles] at hlost
  rcases hlost with ⟨_, hnone, _⟩ | ⟨_, _, _, hnone, _⟩ <;> cases hnone

end Recording

section Report

variable {int : Value → Except String ℤ} {q : Request} {flushResp : Dict} {a : Answers}
  {files : Files}

/-- Only an operation that has a payload tells of a file. -/
theorem size_pos_of_named (h : (save int q flushResp a files).2.named = true) :
    0 < computeBase64Size (payload flushResp) := by
  by_contra hnot
  rw [save] at h
  split at h
  · cases h
  · rw [if_pos (Nat.le_of_not_lt hnot)] at h
    cases h

/-- A rescue that tells of a file has written all of it. -/
theorem rescue_named {kind : String} {doc : PPRFile}
    (h : (rescue a files kind doc).2.named = true) :
    (∃ path, a.rescuePath = .ok path) ∧ a.rescueMkdir = none ∧ a.rescueWrite = .complete ∧
      (rescue a files kind doc).2 =
        .writeFailed kind (some a.rescueName) (computeBase64Size doc.base64) := by
  rw [rescue] at h ⊢
  cases hpath : a.rescuePath with
  | error reason =>
    rw [hpath] at h
    cases h
  | ok path =>
    rw [hpath] at h
    dsimp only at h ⊢
    cases hmkdir : a.rescueMkdir with
    | some reason =>
      rw [hmkdir] at h
      cases h
    | none =>
      rw [hmkdir] at h
      dsimp only at h ⊢
      cases hwrite : a.rescueWrite <;> simp [hwrite, Exit.named] at h ⊢

/-- What is reported as saved is in the requested file. -/
theorem heldIn_of_saved {result : ReplayResult}
    (h : (save int q flushResp a files).2 = .saved result) :
    HeldIn (save int q flushResp a files).1 result.filePath result.base64 := by
  have hnamed : (save int q flushResp a files).2.named = true := by rw [h]; rfl
  have hsaves : Saves int q flushResp a files (save int q flushResp a files) :=
    save_saves (size_pos_of_named hnamed)
  generalize save int q flushResp a files = r at *
  cases hsaves with
  | stopped _ hexit => simp [hexit] at hnamed
  | ended _ hdoc _ hexit =>
    obtain ⟨hwrite, _, _, _, heq⟩ := hexit hnamed
    obtain rfl := Exit.saved.inj (h.symm.trans heq)
    rw [hwrite, heldIn_writeText_self hdoc]
    trivial
  | failed _ _ _ =>
    have heq := (rescue_named hnamed).2.2.2
    rw [h] at heq
    cases heq

/-- When the error names a rescue file, the payload is in it. -/
theorem heldIn_of_rescued {kind name : String} {size : ℕ}
    (h : (save int q flushResp a files).2 = .writeFailed kind (some name) size) :
    ∃ path, a.resolve name = .ok path ∧
      HeldIn (save int q flushResp a files).1 path (payload flushResp) := by
  have hnamed : (save int q flushResp a files).2.named = true := by rw [h]; rfl
  have hsaves : Saves int q flushResp a files (save int q flushResp a files) :=
    save_saves (size_pos_of_named hnamed)
  generalize save int q flushResp a files = r at *
  cases hsaves with
  | stopped _ hexit => simp [hexit] at hnamed
  | ended _ _ _ hexit =>
    obtain ⟨_, _, _, _, heq⟩ := hexit hnamed
    cases h.symm.trans heq
  | failed _ hdoc _ =>
    obtain ⟨⟨path, hpath⟩, hmkdir, hwrite, heq⟩ := rescue_named hnamed
    obtain ⟨rfl, -⟩ := (Exit.writeFailed.inj (h.symm.trans heq)).2.imp Option.some.inj id
    refine ⟨path, hpath, ?_⟩
    rw [heldIn_rescue hdoc hpath hmkdir, hwrite]
    trivial

end Report

end Replay
