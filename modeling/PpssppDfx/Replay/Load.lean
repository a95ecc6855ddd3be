import PpssppDfx.Python.Json
import PpssppDfx.Replay.Blob
import PpssppDfx.Replay.Save

/-!
# Loading a replay

A load reads a `.ppr` file, checks it, and hands the recording to the emulator. What a save has
written, as a JSON text, is what a load of the same file executes.

What `int` and `float` make of a value, and `float` of a numeral, are parameters. The texts are
ASCII, so encoding and decoding a file changes nothing.

## Main definitions

* `Replay.PPRFile.text` — the text of a file
* `Replay.load` — the operation, with the calls that it makes

## Main results

* `Replay.load_of_named` — a load of the file that a save names executes the flushed recording
-/

set_option autoImplicit false

namespace Replay

open Python

/-! ## The document -/

/-- What a conversion raises: a `ValueError` or `TypeError`, or another exception. -/
inductive ConversionError where
  | caught (message : String)
  | other (name : String)

/-- The conversions of the language. -/
structure Conversions where
  int : Value → Except ConversionError ℤ
  float : Value → Except ConversionError (List Char)
  readFloat : List Char → Value

def pprFormatVersion : ℤ := 1

/-- `PPRFile.to_dict`, without its first entry. -/
def PPRFile.fields (doc : PPRFile) : List (String × JsonScalar) :=
  [("version", .int doc.version), ("base64", .str doc.base64), ("base_rtc", .int doc.baseRtc),
    ("recorded_at", .float doc.recordedAt.toList), ("session_note", .str doc.sessionNote)]

/-- `json.dumps(doc.to_dict(), indent=2)`. -/
def PPRFile.text (doc : PPRFile) : List Char :=
  jsonDumps ("ppr_format_version", .int pprFormatVersion) doc.fields

/-- The first of the required fields that is missing. -/
def missingField (data : Dict) : Option String :=
  ["version", "base64", "base_rtc"].find? fun field => (data.get? field).isNone

variable (c : Conversions)

/-- `PPRFile.from_dict`. -/
def PPRFile.fromDict : Value → Except ConversionError PPRFile
  | .dict data =>
    match Dict.get? data "ppr_format_version" with
    | none | some .none =>
      .error (.caught "invalid .ppr file: missing 'ppr_format_version' field")
    | some rawFmt => do
      let fmt ← c.int rawFmt
      if fmt ≠ pprFormatVersion then
        .error (.caught ("unsupported .ppr format version: got " ++ rawFmt.text ++ ", expected " ++
          toString pprFormatVersion))
      else
        match missingField data with
        | some field =>
          .error (.caught ("invalid .ppr file: missing required field " ++ strRepr field))
        | none =>
          let item (key : String) (dflt : Value) := (Dict.get? data key).getD dflt
          let version ← c.int (item "version" .none)
          let baseRtc ← c.int (item "base_rtc" .none)
          let recordedAt ← c.float (item "recorded_at" (.float false "0.0"))
          .ok ⟨version, (item "base64" .none).text, baseRtc, String.ofList recordedAt,
            (item "session_note" (.str "")).text⟩
  | _ => .error (.other "AttributeError")

/-! ## The operation -/

inductive ReplayCall where
  | status
  | abort
  | timeSet (value : ℤ)
  | execute (version : ℤ) (base64 : String)
  deriving DecidableEq

structure LoadRequest where
  filePath : String
  path : String
  restoreRtc : Bool

/-- What the calls answer. -/
structure LoadAnswers where
  status : Answer Dict
  abort : Answer Dict
  timeSet : Answer Dict
  execute : Answer Dict

structure LoadResult where
  version : ℤ
  size : ℕ
  base64 : String
  baseRtc : ℤ
  executing : Bool
  data : Dict

inductive LoadExit where
  | loaded (result : LoadResult)
  | argsInvalid (message : String)
  | raised (reason : String)
  | cancelled

/-- What a load depends on besides its request: the decoder of payloads, `round` of a number of
microseconds to hundredths of a second, and the texts of files that hold no document. -/
structure LoadSetting where
  conversions : Conversions
  decoder : Decoder
  round : ℕ → Value
  fragments : String → List Char

variable (e : LoadSetting)

/-- `_span_fields`; the assertion in the parser is no `ValueError`. -/
def spanFields (b64 : String) : Except String Dict :=
  match parseReplayBlobB64 e.decoder b64 with
  | .span span => .ok [(.str "t0_s", e.round span.t0Us),
      (.str "estimated_end_s", e.round span.endUs),
      (.str "event_count", .int span.eventCount)]
  | .valueError _ => .ok []
  | .assertionError => .error "AssertionError"

def bootAlignedSequence : String :=
  "boot-aligned replay: (1) ppsspp_replay(execute/load) — this call; " ++
  "(2) ppsspp_step(action='reset') — zeroes game-t to the recording " ++
  "epoch; (3) ppsspp_session(action='wait_ready'); (4) wait until " ++
  "boot + estimated_end_s of game time (input injects from boot+t0_s); " ++
  "(5) ppsspp_replay(action='abort') — executing never clears on its " ++
  "own; abort restores real input and is the ONLY completion signal."

/-- `{**data, **entries}`; the keys are strings. -/
def merge (data entries : Dict) : Dict :=
  entries.foldl (fun d entry => match entry.1 with
    | .str key => d.set key entry.2
    | _ => d) data

/-- A call and what comes after it. -/
def andThen (call : ReplayCall) (answer : Answer Dict)
    (next : Dict → List ReplayCall × LoadExit) : List ReplayCall × LoadExit :=
  match answer with
  | .returned resp => (call :: (next resp).1, (next resp).2)
  | .raised reason => ([call], .raised reason)
  | .cancelled => ([call], .cancelled)

/-- `bool(status.get("executing")) or bool(status.get("saving"))`. -/
def isBusy (status : Dict) : Bool :=
  ((status.get? "executing").getD .none).truthy || ((status.get? "saving").getD .none).truthy

/-- `_ensure_replay_idle`, and what comes after it: a status that is not answered is passed over. -/
def ensureReplayIdle (a : LoadAnswers) (next : List ReplayCall × LoadExit) :
    List ReplayCall × LoadExit :=
  match a.status with
  | .cancelled => ([.status], .cancelled)
  | .raised _ => (.status :: next.1, next.2)
  | .returned status =>
    let rest := if isBusy status then andThen .abort a.abort fun _ => next else next
    (.status :: rest.1, rest.2)

/-- `replay_execute`, and the result. -/
def executeReplay (q : LoadRequest) (a : LoadAnswers) (doc : PPRFile) :
    List ReplayCall × LoadExit :=
  andThen (.execute doc.version doc.base64) a.execute fun execResp =>
    match spanFields e doc.base64 with
    | .error reason => ([], .raised reason)
    | .ok span =>
      let data := merge span [(.str "boot_aligned_sequence", .str bootAlignedSequence),
        (.str "file_path", .str q.path), (.str "restore_rtc_applied", .bool q.restoreRtc)]
      ([], .loaded ⟨doc.version, computeBase64Size doc.base64, doc.base64, doc.baseRtc, true,
        merge data execResp⟩)

/-- The rest of the operation, once there is a document. -/
def executeDocument (q : LoadRequest) (a : LoadAnswers) (doc : PPRFile) :
    List ReplayCall × LoadExit :=
  ensureReplayIdle a
    (if q.restoreRtc then andThen (.timeSet doc.baseRtc) a.timeSet fun _ => executeReplay e q a doc
    else executeReplay e q a doc)

/-- The text of a file. -/
def readText (files : Files) (path : String) : Option (List Char) :=
  (files path).map fun content => match content with
    | .document doc => doc.text
    | .fragment => e.fragments path

/-- The operation from its path on: the calls that it makes, and how it ends. -/
def load (files : Files) (q : LoadRequest) (a : LoadAnswers) : List ReplayCall × LoadExit :=
  match readText e files q.path with
  | none => ([], .argsInvalid (".ppr file not found: " ++ q.filePath))
  | some text =>
    match jsonLoads e.conversions.readFloat text with
    | .error .decode => ([], .argsInvalid "invalid .ppr file (JSON parse error)")
    | .error .digits => ([], .raised "ValueError")
    | .ok raw =>
      match PPRFile.fromDict e.conversions raw with
      | .error (.caught message) => ([], .argsInvalid ("invalid .ppr file: " ++ message))
      | .error (.other name) => ([], .raised name)
      | .ok doc => executeDocument e q a doc

/-! ## A document read back -/

section ReadBack

variable {c e} {files : Files} {q : LoadRequest} {a : LoadAnswers} {doc : PPRFile}

/-- What the language says of its conversions. -/
structure Conversions.Lawful (c : Conversions) : Prop where
  int_int : ∀ n, c.int (.int n) = .ok n
  float_readFloat : ∀ text, ∃ repr, c.float (c.readFloat text) = .ok repr

/-- The numbers of a document are read as they are written. -/
structure PPRFile.Reads (doc : PPRFile) : Prop where
  version : (JsonScalar.int doc.version).Reads
  baseRtc : (JsonScalar.int doc.baseRtc).Reads
  recordedAt : (JsonScalar.float doc.recordedAt.toList).Reads

theorem PPRFile.Reads.forall_mem (h : doc.Reads) :
    ∀ entry ∈ ("ppr_format_version", JsonScalar.int pprFormatVersion) :: doc.fields,
      entry.2.Reads := by
  intro entry hmem
  simp only [PPRFile.fields, List.mem_cons, List.not_mem_nil, or_false] at hmem
  rcases hmem with rfl | rfl | rfl | rfl | rfl | rfl
  · exact (by decide : (Nat.toDigits 10 1).length ≤ 4300)
  · exact h.version
  · trivial
  · exact h.baseRtc
  · exact h.recordedAt
  · trivial

/-- A document is read from its text, up to the text of its time. -/
theorem fromDict_text (hlawful : c.Lawful) (h : doc.Reads) : ∃ raw recordedAt,
    jsonLoads c.readFloat doc.text = .ok raw ∧
      PPRFile.fromDict c raw = .ok { doc with recordedAt } := by
  obtain ⟨repr, hrepr⟩ := hlawful.float_readFloat doc.recordedAt.toList
  obtain ⟨raw, hraw⟩ : ∃ raw, readEntries c.readFloat []
      (("ppr_format_version", .int pprFormatVersion) :: doc.fields) = raw := ⟨_, rfl⟩
  have hformat : Dict.get? raw "ppr_format_version" = some (.int 1) := hraw ▸ rfl
  have hversion : Dict.get? raw "version" = some (.int doc.version) := hraw ▸ rfl
  have hbase64 : Dict.get? raw "base64" = some (.str doc.base64) := hraw ▸ rfl
  have hbaseRtc : Dict.get? raw "base_rtc" = some (.int doc.baseRtc) := hraw ▸ rfl
  have htime : Dict.get? raw "recorded_at" = some (c.readFloat doc.recordedAt.toList) := hraw ▸ rfl
  have hnote : Dict.get? raw "session_note" = some (.str doc.sessionNote) := hraw ▸ rfl
  have hmissing : missingField raw = none := hraw ▸ rfl
  refine ⟨.dict raw, String.ofList repr, hraw ▸ jsonLoads_jsonDumps _ _ h.forall_mem, ?_⟩
  unfold PPRFile.fromDict
  simp only [hformat, hlawful.int_int, hmissing, hversion, hbaseRtc, htime, hbase64, hnote,
    Option.getD_some, hrepr, Value.text, bind, Except.bind, pprFormatVersion, ne_eq,
    not_true_eq_false, if_false]

/-- A load of a file that holds a document goes on with this document. -/
theorem load_document (hlawful : e.conversions.Lawful) (h : doc.Reads)
    (hfile : files q.path = some (.document doc)) :
    load e files q a = executeDocument e q a doc := by
  obtain ⟨raw, recordedAt, hloads, hdict⟩ := fromDict_text hlawful h
  have htext : readText e files q.path = some doc.text := by
    rw [readText, hfile]
    rfl
  rw [load, htext]
  simp only [hloads, hdict]
  rfl

/-! ## From a save to a load -/

/-- The calls that end a live replay, as far as the status tells of one. -/
def idleCalls : Answer Dict → List ReplayCall
  | .returned status => if isBusy status then [.status, .abort] else [.status]
  | _ => [.status]

/-- The calls of a load of which none fails. -/
def loadCalls (q : LoadRequest) (a : LoadAnswers) (doc : PPRFile) : List ReplayCall :=
  idleCalls a.status ++ (if q.restoreRtc then [.timeSet doc.baseRtc] else []) ++
    [.execute doc.version doc.base64]

/-- Every call is answered; for the status it is enough that the load is not cancelled. -/
structure LoadAnswers.Answered (a : LoadAnswers) : Prop where
  status : a.status ≠ .cancelled
  abort : ∃ resp, a.abort = .returned resp
  timeSet : ∃ resp, a.timeSet = .returned resp
  execute : ∃ resp, a.execute = .returned resp

/-- The calls of a load, and what it tells its caller about the recording. -/
theorem executeDocument_spec (h : a.Answered) :
    (executeDocument e q a doc).1 = loadCalls q a doc ∧
      ∀ result, (executeDocument e q a doc).2 = .loaded result →
        result.version = doc.version ∧ result.base64 = doc.base64 ∧
          result.baseRtc = doc.baseRtc ∧ result.size = computeBase64Size doc.base64 := by
  obtain ⟨abortResp, habort⟩ := h.abort
  obtain ⟨timeResp, htime⟩ := h.timeSet
  obtain ⟨execResp, hexec⟩ := h.execute
  have hexecute : (executeReplay e q a doc).1 = [.execute doc.version doc.base64] ∧
      ∀ result, (executeReplay e q a doc).2 = .loaded result →
        result.version = doc.version ∧ result.base64 = doc.base64 ∧
          result.baseRtc = doc.baseRtc ∧ result.size = computeBase64Size doc.base64 := by
    rw [executeReplay, hexec, andThen]
    split
    · exact ⟨rfl, fun result hresult => by cases hresult⟩
    · refine ⟨rfl, fun result hresult => ?_⟩
      obtain rfl := LoadExit.loaded.inj hresult
      exact ⟨rfl, rfl, rfl, rfl⟩
  generalize hrun : executeReplay e q a doc = run at hexecute
  obtain ⟨hcalls, hresult⟩ := hexecute
  have hidle (next : List ReplayCall × LoadExit) :
      ensureReplayIdle a next = (idleCalls a.status ++ next.1, next.2) := by
    cases hstatus : a.status with
    | cancelled => exact absurd hstatus h.status
    | raised reason =>
      rw [ensureReplayIdle, hstatus]
      rfl
    | returned status =>
      rw [ensureReplayIdle, hstatus, habort, idleCalls, andThen]
      simp only
      split <;> rfl
  rw [executeDocument, hidle, hrun, loadCalls]
  split
  · rw [htime, andThen, hcalls, List.append_assoc]
    exact ⟨rfl, hresult⟩
  · rw [hcalls, List.append_nil]
    exact ⟨rfl, hresult⟩

/-- The rescue file that an error names holds the document. -/
theorem document_of_rescue {b : Answers} {kind : String}
    (hnamed : (rescue b files kind doc).2.named = true) :
    ∃ path, (rescue b files kind doc).2.Names b.resolve path ∧
      (rescue b files kind doc).1 path =
        some (.document { doc with recordedAt := b.rescueRecordedAt }) := by
  obtain ⟨⟨path, hpath⟩, hmkdir, hwrite, hexit⟩ := rescue_named hnamed
  refine ⟨path, hexit ▸ hpath, ?_⟩
  simp only [rescue, hpath, hmkdir, hwrite]
  exact Function.update_self ..

/-- The file that a save names holds a document with the recording and the time that it got. -/
theorem document_of_named {int : Value → Except String ℤ} {r : Request} {flushResp : Dict}
    {b : Answers} (hnamed : (save int r flushResp b files).2.named = true) :
    ∃ path doc, (save int r flushResp b files).2.Names b.resolve path ∧
      (save int r flushResp b files).1 path = some (.document doc) ∧
      (doc.recordedAt = b.recordedAt ∨ doc.recordedAt = b.rescueRecordedAt) ∧
      int (flushVersion flushResp) = .ok doc.version ∧ doc.base64 = payload flushResp ∧
      ∃ timeResp, b.timeGet = .returned timeResp ∧ int (timeValue timeResp) = .ok doc.baseRtc := by
  rw [save] at hnamed ⊢
  cases hversion : int (flushVersion flushResp) with
  | error reason =>
    rw [hversion] at hnamed
    cases hnamed
  | ok version =>
    simp only [hversion] at hnamed ⊢
    split at hnamed
    · cases hnamed
    · rename_i hsize
      rw [if_neg hsize]
      cases htime : b.timeGet with
      | raised reason =>
        rw [htime] at hnamed
        cases hnamed
      | cancelled =>
        rw [htime] at hnamed
        cases hnamed
      | returned timeResp =>
        simp only [htime] at hnamed ⊢
        cases hrtc : int (timeValue timeResp) with
        | error reason =>
          rw [hrtc] at hnamed
          cases hnamed
        | ok baseRtc =>
          simp only [hrtc] at hnamed ⊢
          cases hmkdir : b.mkdir with
          | some reason =>
            rw [hmkdir] at hnamed
            cases hnamed
          | none =>
            simp only [hmkdir] at hnamed ⊢
            cases hwrite : b.write with
            | complete =>
              exact ⟨r.path, _, rfl, Function.update_self .., .inl rfl, rfl, rfl, _, rfl, hrtc⟩
            | osError kind left =>
              simp only [hwrite] at hnamed ⊢
              obtain ⟨path, hnames, hfile⟩ := document_of_rescue hnamed
              exact ⟨path, _, hnames, hfile, .inr rfl, rfl, rfl, _, rfl, hrtc⟩
            | otherError reason left =>
              rw [hwrite] at hnamed
              cases hnamed
            | cancelled left =>
              rw [hwrite] at hnamed
              cases hnamed

/-- The numbers of a save are read as they are written: they come from JSON texts, and the clock
gives a time with digits around a point. -/
structure Recorded (int : Value → Except String ℤ) (flushResp : Dict) (b : Answers) : Prop where
  version : ∀ n, int (flushVersion flushResp) = .ok n → (JsonScalar.int n).Reads
  baseRtc : ∀ timeResp n, b.timeGet = .returned timeResp → int (timeValue timeResp) = .ok n →
    (JsonScalar.int n).Reads
  recordedAt : (JsonScalar.float b.recordedAt.toList).Reads
  rescueRecordedAt : (JsonScalar.float b.rescueRecordedAt.toList).Reads

/-- A save that names a file, the requested one or the rescue file, has written a document there:
a load of this file ends a replay that the status tells of, restores the time that was saved if it
is asked to, and executes what was flushed. -/
theorem load_of_named {int : Value → Except String ℤ} {r : Request} {flushResp : Dict}
    {b : Answers} (hlawful : e.conversions.Lawful) (hrecorded : Recorded int flushResp b)
    (hnamed : (save int r flushResp b files).2.named = true) :
    ∃ path version baseRtc,
      (save int r flushResp b files).2.Names b.resolve path ∧
      int (flushVersion flushResp) = .ok version ∧
      (∃ timeResp, b.timeGet = .returned timeResp ∧ int (timeValue timeResp) = .ok baseRtc) ∧
      ∀ (filePath : String) (restoreRtc : Bool) (a : LoadAnswers), a.Answered →
        let run := load e (save int r flushResp b files).1 ⟨filePath, path, restoreRtc⟩ a
        run.1 = idleCalls a.status ++ (if restoreRtc then [.timeSet baseRtc] else []) ++
            [.execute version (payload flushResp)] ∧
          ∀ result, run.2 = .loaded result → result.version = version ∧
            result.base64 = payload flushResp ∧ result.baseRtc = baseRtc := by
  obtain ⟨path, doc, hnames, hfile, hclock, hversion, hbase64, timeResp, htime, hrtc⟩ :=
    document_of_named hnamed
  have hreads : doc.Reads := by
    refine ⟨hrecorded.version _ hversion, hrecorded.baseRtc timeResp _ htime hrtc, ?_⟩
    rcases hclock with hclock | hclock
    · rw [hclock]
      exact hrecorded.recordedAt
    · rw [hclock]
      exact hrecorded.rescueRecordedAt
  refine ⟨path, doc.version, doc.baseRtc, hnames, hversion, ⟨timeResp, htime, hrtc⟩,
    fun filePath restoreRtc a hanswered => ?_⟩
  have hspec := @executeDocument_spec e ⟨filePath, path, restoreRtc⟩ a doc hanswered
  obtain ⟨hcalls, hresult⟩ := hspec
  rw [load_document hlawful hreads hfile]
  rw [loadCalls, hbase64] at hcalls
  refine ⟨hcalls, fun result hloaded => ?_⟩
  obtain ⟨hv, hb, hr, _⟩ := hresult result hloaded
  exact ⟨hv, hb.trans hbase64, hr⟩

/-- Conversions of integers and texts, with floats kept as texts. -/
def plainConversions : Conversions where
  int := fun v => match v with
    | .int n => .ok n
    | _ => .error (.caught "TypeError")
  float := fun v => match v with
    | .float _ text => .ok text.toList
    | _ => .error (.caught "TypeError")
  readFloat := fun text => .float true (String.ofList text)

def plainSetting : LoadSetting := ⟨plainConversions, strictDecoder, fun n => .int n, fun _ => []⟩

theorem load_of_named_directoryInTheWay :
    ∃ path version baseRtc,
      (save integerOnly recordingRequest flushed directoryInTheWay fun _ => none).2.Names
        directoryInTheWay.resolve path ∧
      integerOnly (flushVersion flushed) = .ok version ∧
      (∃ timeResp, directoryInTheWay.timeGet = .returned timeResp ∧
        integerOnly (timeValue timeResp) = .ok baseRtc) ∧
      ∀ (filePath : String) (restoreRtc : Bool) (a : LoadAnswers), a.Answered →
        let run := load plainSetting
          (save integerOnly recordingRequest flushed directoryInTheWay fun _ => none).1
          ⟨filePath, path, restoreRtc⟩ a
        run.1 = idleCalls a.status ++ (if restoreRtc then [.timeSet baseRtc] else []) ++
            [.execute version (payload flushed)] ∧
          ∀ result, run.2 = .loaded result → result.version = version ∧
            result.base64 = payload flushed ∧ result.baseRtc = baseRtc := by
  have hlawful : plainConversions.Lawful := ⟨fun _ => rfl, fun text => ⟨_, rfl⟩⟩
  have hrecorded : Recorded integerOnly flushed directoryInTheWay := by
    refine ⟨fun n hn => ?_, fun timeResp n htime hn => ?_, ?_, ?_⟩
    · obtain rfl := Except.ok.inj hn
      exact (by decide : (Nat.toDigits 10 7).length ≤ 4300)
    · obtain rfl := Answer.returned.inj htime
      obtain rfl := Except.ok.inj hn
      exact (by decide : (Nat.toDigits 10 1785051771).length ≤ 4300)
    · exact ⟨1785051799, ['1', '8'], rfl, by simp, by simp⟩
    · exact ⟨1785051799, ['1', '9'], rfl, by simp, by simp⟩
  exact load_of_named hlawful hrecorded (by decide +kernel)

end ReadBack

end Replay
