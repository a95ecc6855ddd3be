import PpssppDfx.Memory.ByteInput
import PpssppDfx.Memory.ReadString
import PpssppDfx.Memory.WriteGuard
import PpssppDfx.Python.LittleEndian
import PpssppDfx.Semantics.Overwrite

/-!
# Writing memory and reading it back

A write is a number of one, two or four bytes, or a text of bytes. The guard is asked twice: before
the session is opened, without a module list, and again with the list of the session. The emulator
then gets one call, so that a write is done as a whole or not at all.

A number is read back as such, and bytes as a list, as a dump in hexadecimal digits or as a file.

## Main definitions

* `Memory.writeMemory` — the tool that writes, over a memory
* `Memory.readMemoryBytes`, `Memory.readMemoryU32` — the tool that reads

## Main results

* `Memory.write_accounted` — what stands in memory afterwards, and which bytes may have changed
* `Memory.written_read_back` — what is read after a write
-/

set_option autoImplicit false

namespace Memory

open Python Semantics Breakpoint Scan

/-! ## Calls that write -/

inductive WriteError where
  | addrInvalid (message : String)
  | argsInvalid (message : String)
  | guarded (error : GuardError)
  /-- What the call raised. -/
  | call (reason : String)
  /-- The module list cannot be iterated. -/
  | typeError

/-- What one call to the emulator does: a call that raises may have written before. -/
structure WriteOutcome where
  written : Option (List UInt8)
  reply : Except String Value

/-- The memory after a call. -/
def WriteOutcome.apply (outcome : WriteOutcome) (memory : ℤ → UInt8) (address : ℤ) : ℤ → UInt8 :=
  match outcome.written with
  | some bytes => overwrite memory address bytes
  | none => memory

/-- What the guard is asked with: the configuration at each of its two checks, and what the call
for the module list returns; `none` if it raises. -/
structure GuardSetting where
  addrsBefore : Addresses
  addrs : Addresses
  moduleList : Option Value

/-- `resolve_session_modules`. -/
def resolveSessionModules : Option Value → Except WriteError (Option (List Value))
  | some (.dict payload) =>
    match (Dict.get? payload "modules").getD (.list []) with
    | .list items =>
      let dicts := items.filter (· matches .dict _)
      .ok (if dicts.isEmpty then none else some dicts)
    -- the items of these are texts
    | .dict _ => .ok none
    | .str _ => .ok none
    | _ => .error .typeError
  | _ => .ok none

/-! ## The write -/

/-- The formats of numbers. -/
inductive WordFormat where
  | u8
  | u16
  | u32
  deriving DecidableEq

inductive WriteFormat where
  | word (format : WordFormat)
  | bytes
  deriving DecidableEq

namespace WordFormat

def name : WordFormat → String
  | u8 => "u8"
  | u16 => "u16"
  | u32 => "u32"

def size : WordFormat → ℕ
  | u8 => 1
  | u16 => 2
  | u32 => 4

def limit : WordFormat → ℤ
  | u8 => 0xFF
  | u16 => 0xFFFF
  | u32 => 0xFFFFFFFF

/-- `f"{limit:#x}"`. -/
def limitText : WordFormat → String
  | u8 => "0xff"
  | u16 => "0xffff"
  | u32 => "0xffffffff"

theorem size_pos (format : WordFormat) : 0 < format.size := by cases format <;> decide

theorem limit_lt (format : WordFormat) : format.limit < 256 ^ format.size := by
  cases format <;> decide

theorem limit_lt_pow (format : WordFormat) : format.limit < 2 ^ 32 := by cases format <;> decide

end WordFormat

def WriteFormat.name : WriteFormat → String
  | word format => format.name
  | bytes => "bytes"

def maxWriteBytes : ℕ := 0x10000

theorem WordFormat.size_le (format : WordFormat) : format.size ≤ maxWriteBytes := by
  cases format <;> decide

/-- The calls of `write_u8`, `write_u16`, `write_u32` and `write_bytes`. -/
inductive WriteCall where
  | word (format : WordFormat) (address value : ℤ)
  | bytes (address : ℤ) (base64 : List Char)

abbrev Writer := WriteCall → WriteOutcome

structure MemoryWriteResponse where
  address : String
  format : String
  bytesWritten : ℕ
  value : Option String
  text : String

/-- `f"{value:X}"`, of a number that is not negative. -/
def hexDigits (value : ℤ) : String :=
  String.ofList ((Nat.toDigits 16 value.toNat).map Char.toUpper)

/-- `_format_write_text`. -/
def formatWriteText (format : WriteFormat) (address : ℤ) (bytesWritten : ℕ) (value : Option ℤ) :
    String :=
  match format, value with
  | .word .u32, some v => "Wrote 0x" ++ hexDigits v ++ " → " ++ formatAddress address
  | _, _ => "Wrote " ++ toString bytesWritten ++ " bytes → " ++ formatAddress address

/-- `MemoryWriteResponse.from_result`. -/
def writeResponse (format : WriteFormat) (address : ℤ) (bytesWritten : ℕ) (value : Option ℤ) :
    MemoryWriteResponse :=
  ⟨formatAddress address, format.name, bytesWritten, value.map formatAddress,
    formatWriteText format address bytesWritten value⟩

/-- What a write is, once its arguments have been read. -/
structure WritePlan where
  call : WriteCall
  address : ℤ
  bytesWritten : ℕ
  value : Option ℤ

/-- `data or value`, as far as the two go. -/
def payloadText (data value : Option String) : Except WriteError String :=
  match data.or value with
  | none => .error noPayload
  | some text => if text = "" then .error noPayload else .ok text
where
  noPayload : WriteError := .argsInvalid
    "no payload: pass data (canonical) or value (alias), e.g. data='0x00000001'"

/-- The number of a text, in the range of its format. -/
def parseWord (format : WordFormat) (text : String) : Except WriteError ℤ := do
  let v ← (parseInt "value" (.str text)).mapError .addrInvalid
  if 0 ≤ v ∧ v ≤ format.limit then .ok v
  else .error (.addrInvalid ("value " ++ strRepr text ++ " out of range for format=" ++
    strRepr format.name ++ " (expected 0.." ++ format.limitText ++ ")"))

/-- The two checks of the guard, for so many bytes. -/
def checkStatic (setting : GuardSetting) (address byteCount : ℤ) (force : Bool) :
    Except WriteError Unit :=
  (checkProtectedAddressStatic setting.addrsBefore address byteCount force).mapError .guarded

def checkSession (setting : GuardSetting) (address byteCount : ℤ) (force : Bool) :
    Except WriteError Unit := do
  let modules ← resolveSessionModules setting.moduleList
  (checkProtectedAddress setting.addrs address byteCount force modules "wide").mapError .guarded

/-- `write_memory` up to its call. -/
def planWrite (setting : GuardSetting) (address : Scalar) (data value : Option String)
    (format : WriteFormat) (force : Bool) : Except WriteError WritePlan := do
  let text ← payloadText data value
  let a ← (parseAddress address).mapError .addrInvalid
  match format with
  | .word w => do
    checkStatic setting a w.size force
    checkSession setting a w.size force
    let v ← parseWord w text
    .ok ⟨.word w a v, a, w.size, some v⟩
  | .bytes => do
    let bytes ← (decodeBytesInput (.str text)).mapError .argsInvalid
    checkStatic setting a bytes.length force
    if bytes = [] then
      .error (.argsInvalid "data decodes to zero bytes for format='bytes'; nothing to write")
    else do
      checkSession setting a bytes.length force
      if maxWriteBytes < bytes.length then
        .error (.argsInvalid ("data is " ++ toString bytes.length ++ " bytes; format='bytes' is " ++
          "capped at " ++ toString maxWriteBytes ++ " — write in chunks"))
      else .ok ⟨.bytes a (b64encode bytes), a, bytes.length, none⟩

/-- `write_memory`: the memory afterwards, and what the caller is told. -/
def writeMemory (setting : GuardSetting) (writer : Writer) (memory : ℤ → UInt8)
    (address : Scalar) (data value : Option String) (format : WriteFormat) (force : Bool) :
    (ℤ → UInt8) × Except WriteError MemoryWriteResponse :=
  match planWrite setting address data value format force with
  | .error e => (memory, .error e)
  | .ok plan =>
    let outcome := writer plan.call
    (outcome.apply memory plan.address,
      match outcome.reply with
      | .error reason => .error (.call reason)
      | .ok _ => .ok (writeResponse format plan.address plan.bytesWritten plan.value))

/-! ## The reads -/

/-- The emulator's answers to reads: `memory.read` and `memory.read_u32`. -/
structure Reader where
  read : MemoryRead
  readU32 : ℕ → Option Dict

inductive ReadOutput where
  | value
  | hex
  | file
  deriving DecidableEq

structure BytesReadResponse where
  address : String
  value : Option (List UInt8)
  size : ℕ
  text : String
  file : String

structure WordReadResponse where
  address : String
  value : ℤ
  text : String

/-- `" ".join(f"{b:02X}" for b in raw)`. -/
def hexDump (raw : List UInt8) : String := " ".intercalate (raw.map fun b => hexUpper [b])

/-- `save_output_bytes` and `save_output_text`, each with the path or with what it raises. -/
structure OutputFiles where
  saveBytes : String → List UInt8 → Except ReadError String
  saveText : String → String → Except ReadError String

def previewBytes : ℕ := 64

/-- The summary of a read that was saved. -/
def fileSummary (address : ℤ) (raw : List UInt8) (stem path : String) : String :=
  "0x" ++ hex08 address ++ ": saved " ++ toString raw.length ++ " bytes to " ++ path ++
    " (hex dump: " ++ stem ++ ".bin.hex.txt); preview: " ++ hexDump (raw.take previewBytes) ++
    if previewBytes < raw.length then " ..." else ""

/-- The response to a read of bytes. -/
def bytesResponse (files : OutputFiles) (address : ℤ) (output : ReadOutput) (raw : List UInt8) :
    Except ReadError BytesReadResponse :=
  let text := formatAddress address ++ ": " ++ hexDump raw
  match output with
  | .value => .ok ⟨formatAddress address, some raw, raw.length, text, ""⟩
  | .hex => .ok ⟨formatAddress address, none, raw.length, text, ""⟩
  | .file => do
    let stem := "mem_" ++ hex08 address ++ "_" ++ toString raw.length
    let path ← files.saveBytes (stem ++ ".bin") raw
    let _ ← files.saveText (stem ++ ".bin.hex.txt") (hexDump raw)
    .ok ⟨formatAddress address, none, raw.length, fileSummary address raw stem path, path⟩

/-- The address of a read. -/
def readAddress (action : String) (address : Scalar) : Except ReadError ℤ := do
  let a ← (parseAddress address).mapError .addrInvalid
  if a ≤ 0 then .error (.argsInvalid ("address must be > 0 for action=" ++ strRepr action))
  else .ok a

/-- `read_memory` with `action="read_bytes"`. -/
def readMemoryBytes (files : OutputFiles) (reader : Reader) (address : Scalar) (size : ℤ)
    (output : ReadOutput) : Except ReadError BytesReadResponse := do
  let a ← readAddress "read_bytes" address
  if size ≤ 0 then .error (.argsInvalid "size must be > 0 for read_bytes")
  else if maxSingleReadBytes < size then
    .error (.argsInvalid ("size (" ++ toString size ++ ") exceeds the single-read cap (" ++
      toString maxSingleReadBytes ++ " bytes); split the request into multiple read_bytes calls"))
  else do
    let raw ← readBytes reader.read a.toNat size.toNat
    bytesResponse files a output raw

/-- The caveat about an address that is no multiple of four. -/
def unalignedCaveat (address : ℤ) : String :=
  "unaligned read: 0x" ++ hex08 address ++ " is not 4-byte aligned; a 4-byte value from this " ++
    "address usually indicates a pointer/offset bug"

section

-- what `int` makes of a value
variable (int : Value → Except ReadError ℤ)

/-- `DebugClient.read_u32`. -/
def readU32 (reader : Reader) (address : ℕ) : Except ReadError ℤ :=
  match reader.readU32 address with
  | none => .error .call
  | some resp => int ((resp.get? "value").getD (.int 0))

/-- `read_memory` with `action="read_u32"`. -/
def readMemoryU32 (reader : Reader) (address : Scalar) : Except ReadError WordReadResponse := do
  let a ← readAddress "read_u32" address
  let v ← readU32 int reader a.toNat
  let text := formatAddress a ++ ": " ++ toString v ++ " (0x" ++ hex08 v ++ ")"
  .ok ⟨formatAddress a, v,
    if a % 4 = 0 then text
    else String.ofList (stripBlank (text ++ " " ++ unalignedCaveat a).toList)⟩

end

/-! ## What is written -/

/-- The bytes that a call stands for. -/
def WriteCall.bytesOf : WriteCall → List UInt8
  | .word format _ value => lowBytes format.size value.toNat
  | .bytes _ base64 => (b64decode base64).toOption.getD []

/-- What the emulator does: an answered call has written its bytes, and one that raised has written
them or nothing. -/
structure Stores (writer : Writer) : Prop where
  answered : ∀ call resp, (writer call).reply = .ok resp →
    (writer call).written = some call.bytesOf
  raised : ∀ call reason, (writer call).reply = .error reason →
    (writer call).written = none ∨ (writer call).written = some call.bytesOf

/-- The bytes that a text stands for in a format. -/
def WriteFormat.encode (format : WriteFormat) (text : String) : Except WriteError (List UInt8) :=
  match format with
  | .word w => (parseWord w text).map fun v => lowBytes w.size v.toNat
  | .bytes => (decodeBytesInput (.str text)).mapError .argsInvalid

section Plan

theorem ok_of_bind {α β ε : Type} {x : Except ε α} {f : α → Except ε β} {v : β}
    (h : (x >>= f) = .ok v) : ∃ w, x = .ok w ∧ f w = .ok v := by
  cases x with
  | error e => exact absurd h (by simp [bind, Except.bind])
  | ok w => exact ⟨w, rfl, h⟩

theorem ok_of_mapError {α ε ε' : Type} {x : Except ε α} {f : ε → ε'} {v : α}
    (h : x.mapError f = .ok v) : x = .ok v := by
  cases x with
  | error e => exact absurd h (by simp [Except.mapError])
  | ok w => exact congrArg Except.ok (Except.ok.inj h)

variable {setting : GuardSetting} {address : Scalar} {data value : Option String}
  {format : WriteFormat} {force : Bool} {plan : WritePlan}

/-- The guard lets so many bytes pass. -/
structure Passes (setting : GuardSetting) (a n : ℤ) (force : Bool) : Prop where
  before : checkStatic setting a n force = .ok ()
  within : checkSession setting a n force = .ok ()

/-- What is known of a plan. -/
structure Planned (setting : GuardSetting) (address : Scalar) (data value : Option String)
    (format : WriteFormat) (force : Bool) (text : String) (plan : WritePlan) : Prop where
  payload : payloadText data value = .ok text
  parsed : parseAddress address = .ok plan.address
  encoded : format.encode text = .ok plan.call.bytesOf
  length : plan.call.bytesOf.length = plan.bytesWritten
  nonempty : 0 < plan.bytesWritten
  short : plan.bytesWritten ≤ maxWriteBytes
  guarded : Passes setting plan.address plan.bytesWritten force
  /-- A number is shown in the formats of numbers, and it is the one that is written. -/
  shown : ∀ w, format = .word w → ∃ v, parseWord w text = .ok v ∧
    plan = ⟨.word w plan.address v, plan.address, w.size, some v⟩
  hidden : format = .bytes → plan.value = none

theorem planned_of_planWrite (h : planWrite setting address data value format force = .ok plan) :
    ∃ text, Planned setting address data value format force text plan := by
  obtain ⟨text, htext, h⟩ := ok_of_bind h
  obtain ⟨a, ha, h⟩ := ok_of_bind h
  have hparsed := ok_of_mapError ha
  refine ⟨text, ?_⟩
  cases format with
  | word w =>
    obtain ⟨_, hbefore, h⟩ := ok_of_bind h
    obtain ⟨_, hwithin, h⟩ := ok_of_bind h
    obtain ⟨v, hv, h⟩ := ok_of_bind h
    obtain rfl := Except.ok.inj h
    refine ⟨htext, hparsed, ?_, length_lowBytes _ _, w.size_pos, w.size_le, ⟨hbefore, hwithin⟩, ?_,
      fun heq => (nomatch heq)⟩
    · rw [WriteFormat.encode, hv]
      rfl
    · rintro _ ⟨rfl⟩
      exact ⟨v, hv, rfl⟩
  | bytes =>
    obtain ⟨bytes, hbytes, h⟩ := ok_of_bind h
    obtain ⟨_, hbefore, h⟩ := ok_of_bind h
    split_ifs at h with hempty hlong
    · obtain ⟨_, -, h⟩ := ok_of_bind h
      cases h
    obtain ⟨_, hwithin, h⟩ := ok_of_bind h
    obtain rfl := Except.ok.inj h
    have hcall : (WriteCall.bytes a (b64encode bytes)).bytesOf = bytes := by
      rw [WriteCall.bytesOf, b64decode_b64encode]
      rfl
    refine ⟨htext, hparsed, ?_, congrArg List.length hcall, List.length_pos_iff.mpr hempty,
      not_lt.mp hlong, ⟨hbefore, hwithin⟩, fun _ heq => (nomatch heq), fun _ => rfl⟩
    rw [hcall]
    exact hbytes

end Plan

section Written

variable {setting : GuardSetting} {writer : Writer} {memory : ℤ → UInt8} {address : Scalar}
  {data value : Option String} {format : WriteFormat} {force : Bool}

/-- The second check was made with a module list. -/
theorem exists_modules_of_checkSession {a n : ℤ} (h : checkSession setting a n force = .ok ()) :
    ∃ modules, resolveSessionModules setting.moduleList = .ok modules ∧
      checkProtectedAddress setting.addrs a n force modules "wide" = .ok () := by
  obtain ⟨modules, hmodules, h⟩ := ok_of_bind h
  exact ⟨modules, hmodules, ok_of_mapError h⟩

/-- An emulator that has a single call for a write does it as a whole or not at all. -/
theorem apply_of_stores (hstores : Stores writer) (call : WriteCall) (a : ℤ) :
    (writer call).apply memory a = overwrite memory a call.bytesOf ∨
      (writer call).apply memory a = memory ∧ ∃ reason, (writer call).reply = .error reason := by
  rw [WriteOutcome.apply]
  cases hreply : (writer call).reply with
  | ok resp =>
    left
    rw [hstores.answered call resp hreply]
  | error reason =>
    rcases hstores.raised call reason hreply with hnone | hsome
    · right
      rw [hnone]
      exact ⟨rfl, reason, rfl⟩
    · left
      rw [hsome]

/-- An emulator that stores every write, and one that stores it and loses the answer. -/
def storing (answers : Bool) : Writer := fun call =>
  ⟨some call.bytesOf, if answers then .ok .none else .error "connection lost"⟩

theorem stores_storing (answers : Bool) : Stores (storing answers) where
  answered _ _ _ := rfl
  raised _ _ _ := Or.inr rfl

/-- An emulator without a module list. -/
def plainSetting : GuardSetting := ⟨some [], some [], none⟩

/-- The number is stored with its low byte first, and not at all in the kernel. -/
example : (writeMemory plainSetting (storing true) (fun _ => 1) (.str "0x09000000")
      (some "0x102") none (.word .u16) false).1 0x09000000 = 2 ∧
    (writeMemory plainSetting (storing true) (fun _ => 1) (.str "0x08000000")
      (some "0x102") none (.word .u16) false).1 0x08000000 = 1 := by
  decide

end Written

/-! ## What is read back -/

section ReadBack

/-- What the emulator answers to reads: the bytes of the memory, in base64, and four of them as a
number. -/
structure Reads (mem : ℤ → UInt8) (reader : Reader) : Prop where
  read : Answers (fun n => mem n) reader.read
  readU32 : ∀ a resp, reader.readU32 a = some resp →
    resp.get? "value" = some (.int (littleEndian (slice (fun n => mem n) a 4)))

/-- The parameter is only named in the errors. -/
theorem parseInt_eq_ok {name : String} {s : Scalar} {v : ℤ} (h : parseInt name s = .ok v)
    (name' : String) : parseInt name' s = .ok v := by
  cases s with
  | bool b => cases h
  | int n => exact h
  | str text =>
    rw [parseInt] at h ⊢
    simp only at h ⊢
    split_ifs at h ⊢ with hempty hprefixed hdigits
    · exact h
    · exact h
    · cases hint : intDecimal (stripBlank text.toList) with
      | none =>
        rw [hint] at h
        cases h
      | some n =>
        rw [hint] at h
        exact h

theorem parseInt_of_parseAddress {s : Scalar} {v : ℤ} (h : parseAddress s = .ok v) (name : String) :
    parseInt name s = .ok v := by
  obtain ⟨w, hw, h⟩ := ok_of_bind h
  split_ifs at h with hrange
  obtain rfl := Except.ok.inj h
  exact parseInt_eq_ok hw name

theorem parseAddress_range {s : Scalar} {v : ℤ} (h : parseAddress s = .ok v) :
    0 ≤ v ∧ v < 2 ^ 32 := by
  obtain ⟨w, -, h⟩ := ok_of_bind h
  split_ifs at h with hrange
  obtain rfl := Except.ok.inj h
  omega

variable {setting : GuardSetting} {writer : Writer} {memory memory' : ℤ → UInt8}
  {address : Scalar} {data value : Option String} {format : WriteFormat} {force : Bool}
  {r : MemoryWriteResponse} {reader : Reader} {a : ℤ} {int : Value → Except ReadError ℤ}

theorem readAddress_of_pos {action : String} {s : Scalar} (h : parseAddress s = .ok a)
    (hpos : 0 < a) : readAddress action s = .ok a := by
  rw [readAddress, h]
  exact if_neg (not_le.mpr hpos)

/-- The bytes of a read that is answered are those of the memory. -/
theorem readMemoryBytes_of_reads {mem : ℤ → UInt8} (hreads : Reads mem reader) {s : Scalar}
    (hparse : parseAddress s = .ok a) (hpos : 0 < a) {n : ℕ} (hn : 0 < n)
    (hshort : n ≤ maxSingleReadBytes) (files : OutputFiles) (output : ReadOutput) :
    readMemoryBytes files reader s n output =
      if (reader.read a.toNat n).isSome then
        bytesResponse files a output (slice (fun i => mem i) a.toNat n)
      else .error .call := by
  have hbytes : readBytes reader.read a.toNat (n : ℤ).toNat = _ :=
    readBytes_of_answers hreads.read hshort
  rw [Int.toNat_natCast] at hbytes
  rw [readMemoryBytes, readAddress_of_pos hparse hpos]
  simp only [bind, Except.bind, Int.toNat_natCast]
  rw [if_neg (by omega), if_neg (by omega)]
  by_cases hread : (reader.read a.toNat n).isSome = true
  · rw [if_pos hread] at hbytes ⊢
    rw [hbytes]
  · rw [if_neg hread] at hbytes ⊢
    rw [hbytes]

/-- The plan of a number. -/
theorem planWrite_word {w : WordFormat} {s : Scalar} {text : String} {v : ℤ}
    (hpayload : payloadText data value = .ok text) (hparse : parseAddress s = .ok a)
    (hpasses : Passes setting a w.size force) (hword : parseWord w text = .ok v) :
    planWrite setting s data value (.word w) force = .ok ⟨.word w a v, a, w.size, some v⟩ := by
  rw [planWrite, hpayload, hparse]
  simp only [bind, Except.bind, Except.mapError, hpasses.before, hpasses.within, hword]

theorem parseWord_eq_ok_iff {w : WordFormat} {text : String} {v : ℤ} :
    parseWord w text = .ok v ↔
      parseInt "value" (.str text) = .ok v ∧ 0 ≤ v ∧ v ≤ w.limit := by
  constructor
  · intro h
    obtain ⟨u, hu, h⟩ := ok_of_bind h
    split_ifs at h with hrange
    obtain rfl := Except.ok.inj h
    exact ⟨ok_of_mapError hu, hrange⟩
  · rintro ⟨hparse, hrange⟩
    rw [parseWord, hparse]
    exact if_pos hrange

/-- The number that a response shows is read back as the same number. -/
theorem parseWord_formatAddress {w : WordFormat} {text : String} {v : ℤ}
    (h : parseWord w text = .ok v) : parseWord w (formatAddress v) = .ok v := by
  obtain ⟨-, hrange⟩ := parseWord_eq_ok_iff.mp h
  have hlimit := w.limit_lt_pow
  have hparse := parseAddress_formatAddress hrange.1 (by omega)
  exact parseWord_eq_ok_iff.mpr ⟨parseInt_of_parseAddress hparse "value", hrange⟩

theorem readBytes_of_reads {mem : ℤ → UInt8} (hreads : Reads mem reader) (b n : ℕ) :
    readBytes reader.read b n =
      if maxSingleReadBytes < n then readBytes (fun _ _ => none) b n
      else if (reader.read b n).isSome then .ok (slice (fun i => mem i) b n)
      else .error .call := by
  split
  · rename_i hlong
    rw [readBytes, readBytes, if_pos hlong, if_pos hlong]
  · rename_i hshort
    exact readBytes_of_answers hreads.read (not_lt.mp hshort)

/-- Two emulators that answer a read alike. -/
theorem readMemoryBytes_congr {reader reader₀ : Reader} (files : OutputFiles) (output : ReadOutput)
    {b n : ℕ} (h : readBytes reader.read b n = readBytes reader₀.read b n) :
    readMemoryBytes files reader (.int b) n output =
      readMemoryBytes files reader₀ (.int b) n output := by
  rw [readMemoryBytes, readMemoryBytes]
  cases haddress : readAddress "read_bytes" (.int b) with
  | error e => rfl
  | ok a =>
    have ha : a = b := by
      obtain ⟨a', hparse, haddress⟩ := ok_of_bind haddress
      split_ifs at haddress with hpos
      obtain rfl := Except.ok.inj haddress
      have hint := parseInt_of_parseAddress (ok_of_mapError hparse) "address"
      exact (Except.ok.inj hint).symm
    simp only [bind, Except.bind, ha, Int.toNat_natCast, h]

/-- The text of a number is a payload. -/
theorem payloadText_formatAddress (v : ℤ) :
    payloadText (some (formatAddress v)) none = .ok (formatAddress v) := by
  have hne : formatAddress v ≠ "" := by
    intro h
    have hlist := congrArg String.toList h
    rw [formatAddress, String.toList_append] at hlist
    cases hlist
  rw [payloadText]
  exact if_neg hne

/-- A number whose bytes are in memory is read as such. -/
theorem readMemoryU32_of_reads {mem : ℤ → UInt8} (hreads : Reads mem reader)
    (hint : ∀ n, int (.int n) = .ok n) {s : Scalar} (hparse : parseAddress s = .ok a)
    (hpos : 0 < a) (hanswered : (reader.readU32 a.toNat).isSome = true) :
    ∃ rw, readMemoryU32 int reader s = .ok rw ∧
      rw.value = littleEndian (slice (fun i => mem i) a.toNat 4) := by
  obtain ⟨resp, hresp⟩ := Option.isSome_iff_exists.mp hanswered
  have hvalue : readU32 int reader a.toNat =
      .ok (littleEndian (slice (fun i => mem i) a.toNat 4)) := by
    rw [readU32, hresp]
    simp only [hreads.readU32 a.toNat resp hresp, Option.getD_some, hint]
  rw [readMemoryU32, readAddress_of_pos hparse hpos]
  simp only [bind, Except.bind, hvalue]
  exact ⟨_, rfl, rfl⟩

/-- A write that succeeded has been planned and answered. -/
theorem planned_of_written (hstores : Stores writer)
    (h : writeMemory setting writer memory address data value format force = (memory', .ok r)) :
    ∃ text plan resp, Planned setting address data value format force text plan ∧
      (writer plan.call).reply = .ok resp ∧
      r = writeResponse format plan.address plan.bytesWritten plan.value ∧
      memory' = overwrite memory plan.address plan.call.bytesOf := by
  rw [writeMemory] at h
  cases hplan : planWrite setting address data value format force with
  | error e =>
    rw [hplan] at h
    exact nomatch congrArg Prod.snd h
  | ok plan =>
    obtain ⟨text, hplanned⟩ := planned_of_planWrite hplan
    rw [hplan] at h
    obtain ⟨hmemory, hresult⟩ := Prod.mk.inj h
    cases hreply : (writer plan.call).reply with
    | error reason =>
      rw [hreply] at hresult
      cases hresult
    | ok resp =>
      rw [hreply] at hresult
      refine ⟨text, plan, resp, hplanned, hreply, (Except.ok.inj hresult).symm, ?_⟩
      rw [← hmemory, WriteOutcome.apply, hstores.answered plan.call resp hreply]

/-- After a write, its bytes are read at the address that the response shows, in each output; a
number is read as such; bytes elsewhere are read as before; and writing the number that the response
shows changes nothing and is answered alike. -/
theorem written_read_back (hstores : Stores writer) (hint : ∀ n, int (.int n) = .ok n)
    (hwrite : writeMemory setting writer memory address data value format force =
      (memory', .ok r)) :
    ∃ a text bytes, parseAddress (.str r.address) = .ok a ∧ payloadText data value = .ok text ∧
      format.encode text = .ok bytes ∧ r.bytesWritten = bytes.length ∧
      (∀ reader, Reads memory' reader →
        (∀ files output, 0 < a → (reader.read a.toNat bytes.length).isSome →
          readMemoryBytes files reader (.str r.address) r.bytesWritten output =
            bytesResponse files a output bytes) ∧
        (format = .word .u32 → 0 < a → (reader.readU32 a.toNat).isSome →
          ∃ v rw, parseWord .u32 text = .ok v ∧
            readMemoryU32 int reader (.str r.address) = .ok rw ∧ rw.value = v ∧
            r.value = some (formatAddress v)) ∧
        ∀ reader₀ files output (b n : ℕ), Reads memory reader₀ →
          (b + n ≤ a ∨ a + bytes.length ≤ b) →
          (reader.read b n).isSome = (reader₀.read b n).isSome →
          readMemoryBytes files reader (.int b) n output =
            readMemoryBytes files reader₀ (.int b) n output) ∧
      ∀ shown, r.value = some shown →
        writeMemory setting writer memory' (.str r.address) (some shown) none format force =
          (memory', .ok r) := by
  obtain ⟨text, plan, resp, hplanned, hreply, rfl, rfl⟩ := planned_of_written hstores hwrite
  obtain ⟨hlo, hhi⟩ := parseAddress_range hplanned.parsed
  have hparse : parseAddress (.str (formatAddress plan.address)) = .ok plan.address :=
    parseAddress_formatAddress hlo hhi
  have hlength := hplanned.length
  have hshort : plan.bytesWritten ≤ maxSingleReadBytes := hplanned.short
  refine ⟨plan.address, text, plan.call.bytesOf, hparse, hplanned.payload, hplanned.encoded,
    hlength.symm, fun reader hreads => ⟨?_, ?_, ?_⟩, ?_⟩
  · intro files output hpos hanswered
    have hread := readMemoryBytes_of_reads hreads hparse hpos hplanned.nonempty hshort files output
    rw [← hlength, slice_overwrite hlo, if_pos hanswered, hlength] at hread
    exact hread
  · intro hformat hpos hanswered
    obtain ⟨v, hv, hplan⟩ := hplanned.shown .u32 hformat
    obtain ⟨word, hread, hvalue⟩ := readMemoryU32_of_reads hreads hint hparse hpos hanswered
    refine ⟨v, word, hv, hread, ?_, by rw [hplan]; rfl⟩
    have hbytes : plan.call.bytesOf = lowBytes 4 v.toNat := by
      rw [hplan]
      rfl
    have hslice : slice (fun i => overwrite memory plan.address (lowBytes 4 v.toNat) i)
        plan.address.toNat (lowBytes 4 v.toNat).length = lowBytes 4 v.toNat :=
      slice_overwrite hlo _
    rw [length_lowBytes] at hslice
    obtain ⟨-, hnonneg, hlimit⟩ := parseWord_eq_ok_iff.mp hv
    have hsize : v < 256 ^ 4 := lt_of_le_of_lt hlimit (WordFormat.limit_lt .u32)
    have hlt : v.toNat < 256 ^ 4 := by omega
    rw [hvalue, hbytes, hslice, littleEndian_lowBytes hlt, Int.toNat_of_nonneg hnonneg]
  · intro reader₀ files output b n hreads₀ hdisjoint hsame
    refine readMemoryBytes_congr files output ?_
    rw [readBytes_of_reads hreads, readBytes_of_reads hreads₀, hsame,
      slice_overwrite_of_disjoint hdisjoint]
  · intro shown hshown
    cases hformat : format with
    | bytes =>
      rw [writeResponse, hplanned.hidden hformat] at hshown
      cases hshown
    | word w =>
      obtain ⟨v, hv, hplan⟩ := hplanned.shown w hformat
      rw [writeResponse, hplan] at hshown
      obtain rfl := Option.some.inj hshown
      have hpasses : Passes setting plan.address w.size force := by
        have := hplanned.guarded
        rwa [hplan] at this
      have hagain := planWrite_word (payloadText_formatAddress v) hparse hpasses
        (parseWord_formatAddress hv)
      rw [← hplan] at hagain
      rw [writeMemory]
      show (match planWrite setting (.str (formatAddress plan.address)) _ none _ force with
        | .error e => _
        | .ok plan => _) = _
      rw [hagain]
      simp only [hreply]
      rw [WriteOutcome.apply, hstores.answered plan.call resp hreply]
      simp only [overwrite_overwrite]

/-- The emulator over a memory. -/
def answeringReader (mem : ℤ → UInt8) : Reader where
  read := answering fun n => mem n
  readU32 a := some [(.str "value", .int (littleEndian (slice (fun n => mem n) a 4)))]

theorem reads_answeringReader (mem : ℤ → UInt8) : Reads mem (answeringReader mem) where
  read := answers_answering fun n => mem n
  readU32 _ resp hresp := by
    obtain rfl := Option.some.inj hresp
    rfl

/-- `int` of numbers only. -/
def intOfInt : Value → Except ReadError ℤ
  | .int n => .ok n
  | _ => .error .call

theorem written_read_back_word :
    ∃ v word, parseWord .u32 "0x102" = .ok v ∧
      readMemoryU32 intOfInt (answeringReader (overwrite (fun _ => 1) 0x09000000 [2, 1, 0, 0]))
        (.str "0x09000000") = .ok word ∧ word.value = v ∧
      some "0x00000102" = some (formatAddress v) := by
  have hwrite : writeMemory plainSetting (storing true) (fun _ => 1) (.str "0x09000000")
      (some "0x102") none (.word .u32) false =
        (overwrite (fun _ => 1) 0x09000000 [2, 1, 0, 0],
          .ok ⟨"0x09000000", "u32", 4, some "0x00000102", "Wrote 0x102 → 0x09000000"⟩) := rfl
  obtain ⟨a, text, bytes, hparse, hpayload, -, -, hread, -⟩ :=
    written_read_back (stores_storing true) (fun n => (rfl : intOfInt (.int n) = .ok n)) hwrite
  obtain rfl : "0x102" = text := Except.ok.inj hpayload
  obtain rfl : 0x09000000 = a := Except.ok.inj hparse
  exact (hread _ (reads_answeringReader _)).2.1 rfl (by decide) rfl

end ReadBack

end Memory
