import PpssppDfx.Python.Base64
import PpssppDfx.Python.Utf8
import PpssppDfx.Scan.Pattern
import PpssppDfx.Semantics.Occurrence
import PpssppDfx.Memory.Address

/-!
# Reading a string

The emulator's own string event has no length limit, so the client reads a bounded number of
bytes, cuts them at the first NUL and decodes them. The tool has the text only: it takes the
string for cut off when its encoding is as long as the limit. A replacement character is never
shorter than what it replaces, so a string that was cut off is always taken for one.

## Main definitions

* `Memory.readString` — the client's read
* `Memory.readMemoryString` — the tool

## Main results

* `Memory.read_unmarked` — without the truncation mark the string is whole
* `Memory.read_stored` — a stored text is read back, or marked and cut off
-/

set_option autoImplicit false

namespace Memory

open Python Semantics Breakpoint Scan

/-! ## The client -/

inductive ReadError where
  | addrInvalid (message : String)
  | argsInvalid (message : String)
  /-- `base64.b64decode` raised. -/
  | undecodable
  /-- The call itself failed. -/
  | call

/-- What comes of a `memory.read` call for an address and a size. -/
abbrev MemoryRead := ℕ → ℕ → Option Dict

/-- `base64.b64decode(b64) if b64 else b""`, with `b64` from `resp.get("base64", "")`. -/
def decodeField (resp : Dict) : Except ReadError (List UInt8) :=
  match (resp.get? "base64").getD (.str "") with
  | .str text =>
    match b64decodeLenient text.toList with
    | .ok bytes => .ok bytes
    | .error _ => .error .undecodable
  | v => if v.truthy then .error .undecodable else .ok []

/-- `DebugClient.read_bytes`. -/
def readBytes (call : MemoryRead) (address size : ℕ) : Except ReadError (List UInt8) :=
  if maxSingleReadBytes < size then
    .error (.argsInvalid ("read size " ++ toString size ++ " exceeds " ++
      toString maxSingleReadBytes ++ " — chunk the read (unbounded reads kill the WebSocket)"))
  else
    match call address size with
    | none => .error .call
    | some resp => decodeField resp

/-- `DebugClient.read_string`. -/
def readString (call : MemoryRead) (address : ℕ) (maxLength : ℤ) :
    Except ReadError (List Char) := do
  let data ← readBytes call address (max 1 (min maxLength maxSingleReadBytes)).toNat
  .ok (decodeUtf8 (data.takeWhile (· ≠ 0)))

/-! ## The tool -/

def defaultStringCap : ℤ := 4096

/-- How many bytes are read. -/
def stringCap (maxLen : ℤ) : ℤ :=
  if maxLen ≤ 0 then defaultStringCap else min maxLen maxSingleReadBytes

structure MemoryReadResult where
  address : ℤ
  value : List Char
  size : ℕ
  truncated : Bool

structure MemoryReadResponse where
  action : String
  address : String
  value : List Char
  size : ℕ
  text : String

def truncationMark : String := " [TRUNCATED — read cap hit with no NUL terminator]"

def emptyCaveat (address : ℤ) : String :=
  "empty string at 0x" ++ hex08 address ++ "; the address may be unreadable " ++
    "or not yet loaded in this state — verify before reading '' as 'empty'"

section Tool

variable (repr : List Char → String)

/-- `MemoryReadResponse.from_result`; what `repr` makes of the value is not looked at. -/
def fromResult (result : MemoryReadResult) : MemoryReadResponse :=
  ⟨"read_string", formatAddress result.address, result.value, result.size,
    formatAddress result.address ++ ": " ++ repr result.value ++
      if result.truncated then truncationMark else ""⟩

/-- The response with the caveat about an empty string. -/
def respond (result : MemoryReadResult) : MemoryReadResponse :=
  let view := fromResult repr result
  if result.size = 0 then
    let text := stripBlank (view.text ++ " " ++ emptyCaveat result.address).toList
    { view with text := String.ofList text }
  else view

/-- `text_val` and what the tool says about it. -/
def stringResult (address : ℤ) (cap : ℤ) (text : List Char) : MemoryReadResult :=
  let byteCount := (text.flatMap String.utf8EncodeChar).length
  ⟨address, text, byteCount, decide (cap ≤ byteCount)⟩

/-- `read_memory` with `action="read_string"`. -/
def readMemoryString (call : MemoryRead) (address : Scalar) (maxLen : ℤ) :
    Except ReadError MemoryReadResponse :=
  match parseAddress address with
  | .error message => .error (.addrInvalid message)
  | .ok a =>
    if a ≤ 0 then .error (.argsInvalid "address must be > 0 for action='read_string'")
    else do
      let text ← readString call a.toNat (stringCap maxLen)
      .ok (respond repr (stringResult a (stringCap maxLen) text))

end Tool

/-! ## The limit -/

section Limit

variable (maxLen : ℤ)

theorem stringCap_pos : 0 < stringCap maxLen := by
  unfold stringCap defaultStringCap maxSingleReadBytes
  split <;> omega

theorem stringCap_le : stringCap maxLen ≤ maxSingleReadBytes := by
  unfold stringCap defaultStringCap maxSingleReadBytes
  split <;> omega

/-- The client reads as many bytes as the tool says. -/
theorem max_min_stringCap :
    (max 1 (min (stringCap maxLen) maxSingleReadBytes)).toNat = (stringCap maxLen).toNat := by
  have hpos := stringCap_pos maxLen
  have hle := stringCap_le maxLen
  omega

theorem toNat_stringCap_le : (stringCap maxLen).toNat ≤ maxSingleReadBytes := by
  have hle := stringCap_le maxLen
  omega

end Limit

/-! ## What is read -/

/-- The emulator encodes the bytes that stand in memory. -/
def Answers (mem : ℕ → UInt8) (call : MemoryRead) : Prop :=
  ∀ a n resp, call a n = some resp →
    resp.get? "base64" = some (.str (String.ofList (b64encode (slice mem a n))))

/-- `"hé"` and a NUL at 0x100. -/
def greeting (a : ℕ) : UInt8 :=
  match a with
  | 0x100 => 0x68
  | 0x101 => 0xC3
  | 0x102 => 0xA9
  | _ => 0

/-- The emulator over a memory. -/
def answering (mem : ℕ → UInt8) : MemoryRead := fun a n =>
  some [(.str "base64", .str (String.ofList (b64encode (slice mem a n))))]

theorem answers_answering (mem : ℕ → UInt8) : Answers mem (answering mem) := by
  intro a n resp h
  obtain rfl := Option.some.inj h
  rfl

section Read

variable {mem : ℕ → UInt8} {call : MemoryRead} {repr : List Char → String} {a n : ℕ}
  {address : Scalar} {maxLen : ℤ} {r : MemoryReadResponse}

theorem decodeField_of_answers (hanswers : Answers mem call) {resp : Dict}
    (h : call a n = some resp) : decodeField resp = .ok (slice mem a n) := by
  rw [decodeField, hanswers a n resp h, Option.getD_some]
  simp only [String.toList_ofList, b64decodeLenient_b64encode]

theorem readBytes_of_answers (hanswers : Answers mem call) (hn : n ≤ maxSingleReadBytes) :
    readBytes call a n = if (call a n).isSome then .ok (slice mem a n) else .error .call := by
  rw [readBytes, if_neg (by omega)]
  cases hcall : call a n with
  | none => rfl
  | some resp => exact decodeField_of_answers hanswers hcall

/-- The string at an address, as far as the limit allows. -/
def stringAt (mem : ℕ → UInt8) (a n : ℕ) : List UInt8 := (slice mem a n).takeWhile (· ≠ 0)

theorem readString_of_answers (hanswers : Answers mem call) :
    readString call a (stringCap maxLen) =
      if (call a (stringCap maxLen).toNat).isSome then
        .ok (decodeUtf8 (stringAt mem a (stringCap maxLen).toNat))
      else .error .call := by
  rw [readString, max_min_stringCap, readBytes_of_answers hanswers (toNat_stringCap_le maxLen)]
  split <;> rfl

/-- The string ends at the limit, or at the first NUL. -/
theorem exists_stringAt (mem : ℕ → UInt8) (a n : ℕ) :
    ∃ k ≤ n, stringAt mem a n = slice mem a k ∧ (∀ i < k, mem (a + i) ≠ 0) ∧
      (k < n → mem (a + k) = 0) := by
  induction n generalizing a with
  | zero => exact ⟨0, le_rfl, rfl, fun i hi => absurd hi (by omega), fun h => absurd h (by omega)⟩
  | succ n ih =>
    rw [stringAt, slice_succ]
    by_cases hzero : mem a = 0
    · exact ⟨0, by omega, by rw [List.takeWhile_cons_of_neg (by simp [hzero])]; rfl,
        fun i hi => absurd hi (by omega), fun _ => hzero⟩
    · obtain ⟨k, hk, heq, hbefore, hend⟩ := ih (a + 1)
      refine ⟨k + 1, by omega, ?_, ?_, ?_⟩
      · rw [List.takeWhile_cons_of_pos (by simp [hzero]), slice_succ]
        exact congrArg _ heq
      · intro i hi
        rcases i with _ | i
        · exact hzero
        · have := hbefore i (by omega)
          rwa [Nat.add_right_comm] at this
      · intro hlt
        have := hend (by omega)
        rwa [Nat.add_right_comm] at this

/-- A successful read, from the address to the response. -/
theorem readMemoryString_eq_ok (hanswers : Answers mem call)
    (h : readMemoryString repr call address maxLen = .ok r) :
    ∃ a : ℤ, parseAddress address = .ok a ∧
      r = respond repr (stringResult a (stringCap maxLen)
        (decodeUtf8 (stringAt mem a.toNat (stringCap maxLen).toNat))) := by
  unfold readMemoryString at h
  split at h
  · exact absurd h (by simp)
  · rename_i a ha
    refine ⟨a, ha, ?_⟩
    split at h
    · exact absurd h (by simp)
    · rw [readString_of_answers hanswers] at h
      split at h
      · exact (Except.ok.inj h).symm
      · exact absurd h (by simp [bind, Except.bind])

/-- A string that is taken for cut off is marked: it is not empty. -/
theorem mark_suffix_of_truncated {text : List Char} {v : ℤ}
    (h : stringCap maxLen ≤ (text.flatMap String.utf8EncodeChar).length) :
    truncationMark.toList <:+
      (respond repr (stringResult v (stringCap maxLen) text)).text.toList := by
  have hpos := stringCap_pos maxLen
  have hsize : (stringResult v (stringCap maxLen) text).size ≠ 0 := by
    show (text.flatMap String.utf8EncodeChar).length ≠ 0
    omega
  have htruncated : (stringResult v (stringCap maxLen) text).truncated = true :=
    decide_eq_true h
  rw [respond, if_neg hsize]
  show _ <:+ (_ ++ if _ then truncationMark else "").toList
  rw [if_pos htruncated, String.toList_append]
  exact List.suffix_append _ _

/-- Without the truncation mark the string is whole: it ends at a NUL within the limit. -/
theorem read_unmarked (hanswers : Answers mem call)
    (h : readMemoryString repr call address maxLen = .ok r)
    (hmark : ¬ truncationMark.toList <:+ r.text.toList) :
    ∃ (v : ℤ) (k : ℕ), parseAddress address = .ok v ∧ (k : ℤ) < stringCap maxLen ∧
      (∀ i < k, mem (v.toNat + i) ≠ 0) ∧ mem (v.toNat + k) = 0 ∧
      r.value = decodeUtf8 (slice mem v.toNat k) := by
  obtain ⟨v, hv, rfl⟩ := readMemoryString_eq_ok hanswers h
  obtain ⟨k, hk, hstring, hbefore, hend⟩ :=
    exists_stringAt mem v.toNat (stringCap maxLen).toNat
  have hshort : ¬ stringCap maxLen ≤
      ((decodeUtf8 (slice mem v.toNat k)).flatMap String.utf8EncodeChar).length := by
    intro hlong
    rw [hstring] at hmark
    exact hmark (mark_suffix_of_truncated hlong)
  have hlength := length_le_decodeUtf8 (slice mem v.toNat k)
  rw [length_slice] at hlength
  have hlt : k < (stringCap maxLen).toNat := by omega
  refine ⟨v, k, hv, by omega, hbefore, hend hlt, ?_⟩
  rw [hstring, respond]
  split <;> rfl

theorem read_unmarked_greeting :
    ∃ (v : ℤ) (k : ℕ), parseAddress (.int 0x100) = .ok v ∧ (k : ℤ) < stringCap 8 ∧
      (∀ i < k, greeting (v.toNat + i) ≠ 0) ∧ greeting (v.toNat + k) = 0 ∧
      ['h', 'é'] = decodeUtf8 (slice greeting v.toNat k) :=
  read_unmarked (answers_answering greeting)
    (show readMemoryString String.ofList (answering greeting) (.int 0x100) 8 =
      .ok ⟨"read_string", "0x00000100", ['h', 'é'], 3, "0x00000100: hé"⟩ from rfl) (by decide)

/-! ## A stored text -/

/-- Only the NUL character has a zero byte in its encoding. -/
theorem ne_zero_of_mem_utf8EncodeChar {c : Char} (hc : c.toNat ≠ 0) :
    ∀ b ∈ String.utf8EncodeChar c, b ≠ 0 := by
  have hbyte {x : ℕ} (hlow : 0 < x) (hhigh : x < 256) : UInt8.ofNat x ≠ 0 := by
    intro h
    have := congrArg UInt8.toNat h
    rw [toNat_ofNat_of_lt hhigh] at this
    exact absurd this (by simp only [UInt8.toNat_zero]; omega)
  obtain ⟨v, hv⟩ : ∃ v, c.val.toNat = v := ⟨_, rfl⟩
  have hpos : v ≠ 0 := hv ▸ hc
  unfold String.utf8EncodeChar
  simp only [hv]
  split_ifs
  · simpa only [List.mem_singleton, forall_eq] using hbyte (by omega) (by omega)
  · simpa only [List.forall_mem_cons, List.not_mem_nil, false_imp_iff, implies_true, and_true] using
      ⟨hbyte (by omega) (by omega), hbyte (by omega) (by omega)⟩
  · simpa only [List.forall_mem_cons, List.not_mem_nil, false_imp_iff, implies_true, and_true] using
      ⟨hbyte (by omega) (by omega), hbyte (by omega) (by omega), hbyte (by omega) (by omega)⟩
  · simpa only [List.forall_mem_cons, List.not_mem_nil, false_imp_iff, implies_true, and_true] using
      ⟨hbyte (by omega) (by omega), hbyte (by omega) (by omega), hbyte (by omega) (by omega),
        hbyte (by omega) (by omega)⟩

variable {text : List Char}

/-- The text stands at an address, followed by a NUL. -/
def Stored (mem : ℕ → UInt8) (a : ℕ) (text : List Char) : Prop :=
  let bytes := text.flatMap String.utf8EncodeChar
  slice mem a (bytes.length + 1) = bytes ++ [0]

/-- What is read of a stored text: all of it, or as many bytes as the limit allows. -/
theorem stringAt_stored (hstored : Stored mem a text) (hnul : ∀ c ∈ text, c.toNat ≠ 0) (n : ℕ) :
    stringAt mem a n = (text.flatMap String.utf8EncodeChar).take n := by
  obtain ⟨bytes, hbytes⟩ : ∃ bytes, text.flatMap String.utf8EncodeChar = bytes := ⟨_, rfl⟩
  have hnonzero : ∀ b ∈ bytes, decide (b ≠ 0) = true := by
    intro b hb
    obtain ⟨c, hc, hmem⟩ := List.mem_flatMap.mp (hbytes ▸ hb)
    exact decide_eq_true (ne_zero_of_mem_utf8EncodeChar (hnul c hc) b hmem)
  rw [Stored, hbytes] at hstored
  rw [hbytes, stringAt]
  rcases Nat.lt_or_ge bytes.length n with hlt | hge
  · obtain ⟨rest, rfl⟩ := Nat.exists_eq_add_of_le (show bytes.length + 1 ≤ n by omega)
    rw [← slice_append, hstored, List.append_assoc, List.takeWhile_append_of_pos hnonzero,
      List.take_of_length_le (by omega), List.singleton_append,
      List.takeWhile_cons_of_neg (by simp), List.append_nil]
  · have htake : slice mem a n = bytes.take n := by
      rw [← take_slice (show n ≤ bytes.length + 1 by omega), hstored,
        List.take_append_of_le_length hge]
    rw [htake, List.takeWhile_eq_self_iff.mpr fun b hb => hnonzero b (List.mem_of_mem_take hb)]

/-- A stored text is read back if it is shorter than the limit. Otherwise the response is marked,
and its value is the beginning of the text, perhaps with a replacement for a character that was
cut off. -/
theorem read_stored (hanswers : Answers mem call) {v : ℤ} (haddress : parseAddress address = .ok v)
    (hpos : 0 < v) (hanswered : (call v.toNat (stringCap maxLen).toNat).isSome)
    (hstored : Stored mem v.toNat text) (hnul : ∀ c ∈ text, c.toNat ≠ 0) :
    ∃ result, readMemoryString repr call address maxLen = .ok (respond repr result) ∧
      result.address = v ∧
      (((text.flatMap String.utf8EncodeChar).length < stringCap maxLen ∧
          result.value = text ∧ result.truncated = false) ∨
        (stringCap maxLen ≤ (text.flatMap String.utf8EncodeChar).length ∧
          result.truncated = true ∧ ∃ front, front <+: text ∧
            (result.value = front ∨ result.value = front ++ [replacement]))) := by
  have hcap := stringCap_pos maxLen
  refine ⟨stringResult v (stringCap maxLen)
    (decodeUtf8 (stringAt mem v.toNat (stringCap maxLen).toNat)), ?_, rfl, ?_⟩
  · rw [readMemoryString, haddress]
    simp only
    rw [if_neg (by omega), readString_of_answers hanswers, if_pos hanswered]
    rfl
  · rw [stringAt_stored hstored hnul]
    obtain ⟨bytes, hbytes⟩ : ∃ bytes, text.flatMap String.utf8EncodeChar = bytes := ⟨_, rfl⟩
    rcases lt_or_ge (bytes.length : ℤ) (stringCap maxLen) with hlt | hge
    · have hwhole : decodeUtf8 (bytes.take (stringCap maxLen).toNat) = text := by
        rw [List.take_of_length_le (by omega), ← hbytes, ← List.append_nil (text.flatMap _),
          decodeUtf8_flatMap]
        exact List.append_nil text
      left
      rw [hbytes, hwhole]
      exact ⟨hlt, rfl, decide_eq_false (by rw [hbytes]; omega)⟩
    · have hlength := length_le_decodeUtf8 (bytes.take (stringCap maxLen).toNat)
      rw [List.length_take, Nat.min_eq_left (by omega)] at hlength
      right
      obtain ⟨front, hfront, hdecode⟩ := decodeUtf8_take_flatMap text (stringCap maxLen).toNat
      rw [hbytes] at hdecode ⊢
      exact ⟨hge, decide_eq_true (by omega), front, hfront, hdecode⟩

theorem read_stored_greeting :
    ∃ result, readMemoryString String.ofList (answering greeting) (.int 0x100) 2 =
        .ok (respond String.ofList result) ∧ result.address = 0x100 ∧
      (((['h', 'é'].flatMap String.utf8EncodeChar).length < stringCap 2 ∧
          result.value = ['h', 'é'] ∧ result.truncated = false) ∨
        (stringCap 2 ≤ (['h', 'é'].flatMap String.utf8EncodeChar).length ∧
          result.truncated = true ∧ ∃ front, front <+: ['h', 'é'] ∧
            (result.value = front ∨ result.value = front ++ [replacement]))) :=
  read_stored (answers_answering greeting) rfl (by decide) rfl (by unfold Stored; decide) (by simp)

end Read

end Memory
