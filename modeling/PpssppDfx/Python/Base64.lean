import Mathlib.Data.List.Count
import PpssppDfx.Python.Integer

/-!
# Base64

The standard text of bytes in base64, and the decoders. The strict one takes characters outside
the alphabet, excess or missing padding and anything behind it for errors; the lenient one passes
over stray characters and stops at the end of the padding. The bits that the last character has
too many are not looked at.

## Main definitions

* `Python.b64encode` — `base64.b64encode(data)`, as a text
* `Python.b64decode` — `base64.b64decode(text, validate=True)`
* `Python.b64decodeLenient` — `base64.b64decode(text)`

## Main results

* `Python.b64decode_b64encode` — what is written is read back
* `Python.b64decodeLenient_of_b64decode` — what the strict decoder accepts, the lenient one reads
  alike
* `Python.length_b64decode_le` — a text has no more bytes than its characters have bits for
-/

set_option autoImplicit false

namespace Python

def b64Alphabet : List Char :=
  "ABCDEFGHIJKLMNOPQRSTUVWXYZabcdefghijklmnopqrstuvwxyz0123456789+/".toList

/-- The character of six bits. -/
def b64Char (n : ℕ) : Char := b64Alphabet.getD n '='

/-- The six bits of a character. -/
def b64Value (c : Char) : Option ℕ := b64Alphabet.findIdx? (· == c)

/-- `base64.b64encode(data)`, as a text. -/
def b64encode : List UInt8 → List Char
  | [] => []
  | [a] => [b64Char (a.toNat / 4), b64Char (a.toNat % 4 * 16), '=', '=']
  | [a, b] =>
    [b64Char (a.toNat / 4), b64Char (a.toNat % 4 * 16 + b.toNat / 16),
      b64Char (b.toNat % 16 * 4), '=']
  | a :: b :: c :: rest =>
    b64Char (a.toNat / 4) :: b64Char (a.toNat % 4 * 16 + b.toNat / 16) ::
      b64Char (b.toNat % 16 * 4 + c.toNat / 64) :: b64Char (c.toNat % 64) :: b64encode rest

/-- How far a group of four characters has come, with the bits that are left over from the
last of them and whether padding has begun. -/
inductive Quad where
  | zero
  | one (left : ℕ) (padded : Bool)
  | two (left : ℕ) (padded : Bool)
  | three (left : ℕ)

namespace Quad

/-- Padding has begun. -/
def padded : Quad → Bool
  | one _ padded | two _ padded => padded
  | _ => false

/-- The byte that six more bits complete, if they do, and what is left over. -/
def push (v : ℕ) : Quad → List UInt8 × Quad
  | zero => ([], one v false)
  | one left _ => ([UInt8.ofNat (left * 4 + v / 16)], two (v % 16) false)
  | two left _ => ([UInt8.ofNat (left * 16 + v / 4)], three (v % 4))
  | three left => ([UInt8.ofNat (left * 64 + v)], zero)

/-- A padding character; `none` where it completes the group, and with it the text. -/
def pad (out : List UInt8) : Quad → Except String (Option Quad)
  | zero =>
    .error (if out = [] then "Leading padding not allowed" else "Excess padding not allowed")
  | one left _ => .ok (some (one left true))
  | two left false => .ok (some (two left true))
  -- the second of two padding characters, or the only one
  | two _ true | three _ => .ok none

/-- The end of the text, which only a complete group can stand at. -/
def finish (out : List UInt8) : Quad → Except String (List UInt8)
  | zero => .ok out
  | one _ _ =>
    .error ("Invalid base64-encoded string: number of data characters (" ++
      toString (out.length / 3 * 4 + 1) ++ ") cannot be 1 more than a multiple of 4")
  | two _ _ | three _ => .error "Incorrect padding"

end Quad

/-- `binascii.a2b_base64(text, strict_mode=True)`, behind a part of the text that has been
read. -/
def b64decodeFrom (out : List UInt8) : Quad → List Char → Except String (List UInt8)
  | quad, [] => quad.finish out
  | quad, c :: rest =>
    if c = '=' then
      match quad.pad out with
      | .error message => .error message
      | .ok (some quad) => b64decodeFrom out quad rest
      | .ok none => if rest = [] then .ok out else .error "Excess data after padding"
    else
      match b64Value c with
      | none => .error "Only base64 data is allowed"
      | some v =>
        if quad.padded then .error "Discontinuous padding not allowed"
        else b64decodeFrom (out ++ (quad.push v).1) (quad.push v).2 rest

/-- `base64.b64decode(text, validate=True)`. -/
def b64decode (cs : List Char) : Except String (List UInt8) :=
  if cs.any fun c => 128 ≤ c.toNat then
    .error "string argument should contain only ASCII characters"
  else b64decodeFrom [] .zero cs

/-- `binascii.a2b_base64(text)`, behind a part of the text that has been read. -/
def b64decodeLenientFrom (out : List UInt8) : Quad → List Char → Except String (List UInt8)
  | quad, [] => quad.finish out
  | quad, c :: rest =>
    if c = '=' then
      match quad.pad out with
      | .error _ => b64decodeLenientFrom out quad rest
      | .ok (some quad) => b64decodeLenientFrom out quad rest
      | .ok none => .ok out
    else
      match b64Value c with
      | none => b64decodeLenientFrom out quad rest
      -- padding that has begun and not come to its end is forgotten
      | some v => b64decodeLenientFrom (out ++ (quad.push v).1) (quad.push v).2 rest

/-- `base64.b64decode(text)`. -/
def b64decodeLenient (cs : List Char) : Except String (List UInt8) :=
  if cs.any fun c => 128 ≤ c.toNat then
    .error "string argument should contain only ASCII characters"
  else b64decodeLenientFrom [] .zero cs

variable {n : ℕ} {cs rest : List Char} {out out' bytes : List UInt8}

/-! ## The alphabet -/

theorem b64Char_spec (h : n < 64) :
    b64Value (b64Char n) = some n ∧ b64Char n ≠ '=' ∧ (b64Char n).toNat < 128 := by
  have hall : ∀ n < 64,
      b64Value (b64Char n) = some n ∧ b64Char n ≠ '=' ∧ (b64Char n).toNat < 128 := by decide
  exact hall n h

/-- The six bits that a character carries, if it is one of the alphabet. -/
def bitsOf (cs : List Char) : ℕ := 6 * cs.countP fun c => (b64Value c).isSome

theorem bitsOf_cons (c : Char) (rest : List Char) :
    bitsOf (c :: rest) = bitsOf rest + if (b64Value c).isSome then 6 else 0 := by
  rw [bitsOf, bitsOf, List.countP_cons, Nat.mul_add]
  split <;> rfl

/-! ## Reading back -/

/-- A character of the alphabet gives the decoder its six bits. -/
theorem b64decodeFrom_b64Char {quad : Quad} (hpadded : quad.padded = false) (hn : n < 64) :
    b64decodeFrom out quad (b64Char n :: rest) =
      b64decodeFrom (out ++ (quad.push n).1) (quad.push n).2 rest := by
  obtain ⟨hvalue, hne, -⟩ := b64Char_spec hn
  rw [b64decodeFrom, if_neg hne, hvalue, hpadded]
  rfl

/-- Padding aside, each group of characters is read as the bytes that it was written for. -/
theorem b64decodeFrom_b64encode (out bytes : List UInt8) :
    b64decodeFrom out .zero (b64encode bytes) = .ok (out ++ bytes) := by
  induction bytes using b64encode.induct generalizing out with
  | case1 => rw [b64encode, b64decodeFrom, Quad.finish, List.append_nil]
  | case2 a =>
    have ha : a.toNat < 256 := a.toNat_lt
    have hbyte : a.toNat / 4 * 4 + a.toNat % 4 * 16 / 16 = a.toNat := by omega
    rw [b64encode, b64decodeFrom_b64Char rfl (by omega), b64decodeFrom_b64Char rfl (by omega)]
    simp only [Quad.push, b64decodeFrom, Quad.pad, hbyte, UInt8.ofNat_toNat, List.append_nil,
      if_true]
  | case3 a b =>
    have ha : a.toNat < 256 := a.toNat_lt
    have hb : b.toNat < 256 := b.toNat_lt
    have hfirst : a.toNat / 4 * 4 + (a.toNat % 4 * 16 + b.toNat / 16) / 16 = a.toNat := by omega
    have hsecond : (a.toNat % 4 * 16 + b.toNat / 16) % 16 * 16 + b.toNat % 16 * 4 / 4 =
        b.toNat := by omega
    rw [b64encode, b64decodeFrom_b64Char rfl (by omega), b64decodeFrom_b64Char rfl (by omega),
      b64decodeFrom_b64Char rfl (by omega)]
    simp only [Quad.push, b64decodeFrom, Quad.pad, hfirst, hsecond, UInt8.ofNat_toNat,
      List.append_nil, List.append_assoc, List.cons_append, List.nil_append, if_true]
  -- three bytes are cut into six bits and put together again, without what follows them
  | case4 a b c rest ih =>
    have ha : a.toNat < 256 := a.toNat_lt
    have hb : b.toNat < 256 := b.toNat_lt
    have hc : c.toNat < 256 := c.toNat_lt
    have hfirst : a.toNat / 4 * 4 + (a.toNat % 4 * 16 + b.toNat / 16) / 16 = a.toNat := by omega
    have hsecond : (a.toNat % 4 * 16 + b.toNat / 16) % 16 * 16 +
        (b.toNat % 16 * 4 + c.toNat / 64) / 4 = b.toNat := by omega
    have hthird : (b.toNat % 16 * 4 + c.toNat / 64) % 4 * 64 + c.toNat % 64 = c.toNat := by omega
    rw [b64encode, b64decodeFrom_b64Char rfl (by omega), b64decodeFrom_b64Char rfl (by omega),
      b64decodeFrom_b64Char rfl (by omega), b64decodeFrom_b64Char rfl (by omega)]
    simp only [Quad.push, ih, hfirst, hsecond, hthird, UInt8.ofNat_toNat, List.append_nil,
      List.append_assoc, List.cons_append, List.nil_append]

theorem forall_mem_b64encode {P : Char → Prop} (hdata : ∀ n < 64, P (b64Char n)) (hpad : P '=') :
    ∀ c ∈ b64encode bytes, P c := by
  induction bytes using b64encode.induct with
  | case1 => exact fun c hc => absurd hc List.not_mem_nil
  | case2 a =>
    have ha : a.toNat < 256 := a.toNat_lt
    simp only [b64encode, List.forall_mem_cons]
    exact ⟨hdata _ (by omega), hdata _ (by omega), hpad, hpad, by simp⟩
  | case3 a b =>
    have ha : a.toNat < 256 := a.toNat_lt
    have hb : b.toNat < 256 := b.toNat_lt
    simp only [b64encode, List.forall_mem_cons]
    exact ⟨hdata _ (by omega), hdata _ (by omega), hdata _ (by omega), hpad, by simp⟩
  | case4 a b c rest ih =>
    have ha : a.toNat < 256 := a.toNat_lt
    have hb : b.toNat < 256 := b.toNat_lt
    have hc : c.toNat < 256 := c.toNat_lt
    simp only [b64encode, List.forall_mem_cons]
    exact ⟨hdata _ (by omega), hdata _ (by omega), hdata _ (by omega), hdata _ (by omega), ih⟩

/-- The standard text of bytes is read back. -/
theorem b64decode_b64encode (bytes : List UInt8) : b64decode (b64encode bytes) = .ok bytes := by
  have hascii : ∀ c ∈ b64encode bytes, c.toNat < 128 :=
    forall_mem_b64encode (fun n hn => (b64Char_spec hn).2.2) (by decide)
  rw [b64decode, if_neg, b64decodeFrom_b64encode, List.nil_append]
  simpa using hascii

/-! ## The lenient decoder -/

theorem b64decodeLenientFrom_of_b64decodeFrom {quad : Quad}
    (h : b64decodeFrom out quad cs = .ok bytes) :
    b64decodeLenientFrom out quad cs = .ok bytes := by
  induction cs generalizing out quad with
  | nil => exact h
  | cons c rest ih =>
    rw [b64decodeFrom] at h
    rw [b64decodeLenientFrom]
    split at h
    · rename_i hpad
      rw [if_pos hpad]
      split at h
      · cases h
      · exact ih h
      · split at h
        · exact h
        · cases h
    · rename_i hpad
      rw [if_neg hpad]
      split at h
      · cases h
      · split at h
        · cases h
        · exact ih h

/-- What the strict decoder accepts, the lenient one reads alike. -/
theorem b64decodeLenient_of_b64decode (h : b64decode cs = .ok bytes) :
    b64decodeLenient cs = .ok bytes := by
  unfold b64decode at h
  unfold b64decodeLenient
  split at h
  · cases h
  · rename_i hascii
    rw [if_neg hascii]
    exact b64decodeLenientFrom_of_b64decodeFrom h

theorem b64decodeLenient_b64encode (bytes : List UInt8) :
    b64decodeLenient (b64encode bytes) = .ok bytes :=
  b64decodeLenient_of_b64decode (b64decode_b64encode bytes)

/-! ## Lengths -/

/-- Once there is a byte, or the first character of one, there are bytes at the end. -/
theorem ne_nil_of_b64decodeFrom {quad : Quad} (h : b64decodeFrom out quad cs = .ok bytes)
    (hbegun : out ≠ [] ∨ ∃ left padded, quad = .one left padded) : bytes ≠ [] := by
  induction cs generalizing out quad with
  | nil =>
    rw [b64decodeFrom] at h
    rcases hbegun with hout | ⟨left, padded, rfl⟩
    · cases quad with
      | zero =>
        cases h
        exact hout
      | one | two | three => cases h
    · cases h
  | cons c rest ih =>
    rw [b64decodeFrom] at h
    split at h
    · -- padding adds no byte, and after one character it does not complete the group
      rcases hbegun with hout | ⟨left, padded, rfl⟩
      · split at h
        · cases h
        · exact ih h (.inl hout)
        · split at h
          · cases h
            exact hout
          · cases h
      · exact ih h (.inr ⟨left, true, rfl⟩)
    · split at h
      · cases h
      · split at h
        · cases h
        · refine ih h (.inl ?_)
          rcases hbegun with hout | ⟨left, padded, rfl⟩
          · exact fun hnil => hout (List.append_eq_nil_iff.mp hnil).1
          · simp [Quad.push]

/-- Only the empty text has no bytes. -/
theorem b64decode_nil_iff (h : b64decode cs = .ok bytes) : bytes = [] ↔ cs = [] := by
  unfold b64decode at h
  split at h
  · cases h
  · cases cs with
    | nil =>
      cases h
      simp
    | cons c rest =>
      refine iff_of_false ?_ (List.cons_ne_nil c rest)
      rw [b64decodeFrom] at h
      split at h
      · cases h
      · split at h
        · cases h
        · exact ne_nil_of_b64decodeFrom h (.inr ⟨_, _, rfl⟩)

/-- The bits that a group has left over. -/
def Quad.bits : Quad → ℕ
  | .zero => 0
  | .one _ _ => 6
  | .two _ _ => 4
  | .three _ => 2

theorem bits_pad {quad quad' : Quad} (h : quad.pad out = .ok (some quad')) :
    quad'.bits = quad.bits := by
  cases quad with
  | zero | three => cases h
  | one left padded =>
    cases h
    rfl
  | two left padded =>
    cases padded with
    | true => cases h
    | false =>
      cases h
      rfl

theorem bits_push (quad : Quad) (v : ℕ) :
    8 * (quad.push v).1.length + (quad.push v).2.bits = quad.bits + 6 := by
  cases quad <;> rfl

/-- The bytes that are read are made of the bits of the characters. -/
theorem length_b64decodeFrom_le (quad : Quad) (h : b64decodeFrom out quad cs = .ok out') :
    8 * out'.length ≤ 8 * out.length + quad.bits + bitsOf cs := by
  induction cs generalizing out quad with
  | nil =>
    rw [b64decodeFrom] at h
    cases quad with
    | zero =>
      rw [Quad.finish, Except.ok.injEq] at h
      rw [h]
      omega
    | one | two | three => cases h
  | cons c rest ih =>
    have hbits := bitsOf_cons c rest
    rw [b64decodeFrom] at h
    split at h
    · -- padding: the bits that are left over are dropped
      split at h
      · cases h
      · rename_i hpad
        have hrest := ih _ h
        rw [bits_pad hpad] at hrest
        omega
      · split at h
        · rw [Except.ok.injEq] at h
          rw [h]
          omega
        · cases h
    · split at h
      · cases h
      · rename_i v hv
        split at h
        · cases h
        · have hrest := ih _ h
          have hpush := bits_push quad v
          rw [hv, Option.isSome_some, if_pos rfl] at hbits
          rw [List.length_append] at hrest
          omega

/-- A text has no more bytes than its characters have bits for. -/
theorem length_b64decode_le (h : b64decode cs = .ok out) : 8 * out.length ≤ bitsOf cs := by
  unfold b64decode at h
  split at h
  · cases h
  · have hle := length_b64decodeFrom_le .zero h
    simpa [Quad.bits] using hle

/-- The groups of a text are complete. -/
theorem length_b64encode_mod (bytes : List UInt8) : (b64encode bytes).length % 4 = 0 := by
  induction bytes using b64encode.induct with
  | case1 | case2 | case3 => simp [b64encode]
  | case4 a b c rest ih =>
    simp only [b64encode, List.length_cons]
    omega

/-- The text of bytes has less than one character too many. -/
theorem bitsOf_b64encode_le (bytes : List UInt8) :
    bitsOf (b64encode bytes) ≤ 8 * bytes.length + 4 := by
  -- characters of the alphabet have six bits, padding has none
  have hdata : ∀ n < 64, ∀ rest, bitsOf (b64Char n :: rest) = bitsOf rest + 6 := by
    intro n hn rest
    rw [bitsOf_cons, (b64Char_spec hn).1, Option.isSome_some, if_pos rfl]
  induction bytes using b64encode.induct with
  | case1 => decide
  | case2 a =>
    have ha : a.toNat < 256 := a.toNat_lt
    have hpads : bitsOf ['=', '='] = 0 := by decide
    have hbits : bitsOf (b64encode [a]) = 0 + 6 + 6 := by
      rw [b64encode, hdata _ (by omega), hdata _ (by omega), hpads]
    exact Nat.le_of_eq hbits
  | case3 a b =>
    have ha : a.toNat < 256 := a.toNat_lt
    have hb : b.toNat < 256 := b.toNat_lt
    have hpad : bitsOf ['='] = 0 := by decide
    rw [b64encode, hdata _ (by omega), hdata _ (by omega), hdata _ (by omega), hpad]
    simp only [List.length_cons, List.length_nil]
    omega
  | case4 a b c rest ih =>
    have ha : a.toNat < 256 := a.toNat_lt
    have hb : b.toNat < 256 := b.toNat_lt
    have hc : c.toNat < 256 := c.toNat_lt
    rw [b64encode, hdata _ (by omega), hdata _ (by omega), hdata _ (by omega),
      hdata _ (by omega)]
    simp only [List.length_cons]
    omega

end Python
