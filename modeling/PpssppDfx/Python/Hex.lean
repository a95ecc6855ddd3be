import PpssppDfx.Python.Text

/-!
# Hexadecimal texts

Numbers and bytes that are written in hexadecimal digits, in upper or lower case, and read
back.

## Main definitions

* `Python.hexNumber` — `int(text, 16)`
* `Python.fromHex`, `Python.hexText` — `bytes.fromhex(text)` and the text of bytes

## Main results

* `Python.hexNumber_toDigits` — the numeral of a number is read back
* `Python.fromHex_hexText` — the text of bytes is read back
-/

set_option autoImplicit false

namespace Python

/-- `c in "0123456789abcdefABCDEF"`. -/
def isHexDigit (c : Char) : Bool := "0123456789abcdefABCDEF".toList.contains c

/-- All characters are hexadecimal digits. -/
def isHexText (cs : List Char) : Bool := cs.all isHexDigit

/-- `text.lower().startswith("0x")`. -/
def hasHexPrefix : List Char → Bool
  | '0' :: c :: _ => c == 'x' || c == 'X'
  | _ => false

/-- The value of a hexadecimal digit. -/
def hexValue (c : Char) : ℕ := (digit 16 c).getD 0

/-- `int(text, 16)` of hexadecimal digits. -/
def hexNumber (cs : List Char) : ℕ := ofDigits 16 (cs.map hexValue)

/-- `bytes.fromhex(text)` of an even number of hexadecimal digits. -/
def fromHex : List Char → List UInt8
  | high :: low :: rest => UInt8.ofNat (16 * hexValue high + hexValue low) :: fromHex rest
  | _ => []

/-- The hexadecimal digit of a number. -/
def hexDigit (upper : Bool) (n : ℕ) : Char :=
  if upper then n.digitChar.toUpper else n.digitChar

/-- Two hexadecimal digits for each byte. -/
def hexText (upper : Bool) (bytes : List UInt8) : List Char :=
  bytes.flatMap fun b => [hexDigit upper (b.toNat / 16), hexDigit upper (b.toNat % 16)]

variable {upper : Bool} {cs : List Char} {bytes : List UInt8} {n : ℕ}

/-! ## Digits -/

theorem hexDigit_spec (upper : Bool) (h : n < 16) :
    isHexDigit (hexDigit upper n) = true ∧ hexValue (hexDigit upper n) = n := by
  have hall : ∀ upper : Bool, ∀ n < 16,
      isHexDigit (hexDigit upper n) = true ∧ hexValue (hexDigit upper n) = n := by decide
  exact hall upper n h

theorem isBlank_of_isHexDigit {c : Char} (h : isHexDigit c = true) : isBlank c = false := by
  have hall : "0123456789abcdefABCDEF".toList.all (!isBlank ·) = true := by decide
  simpa using List.all_eq_true.mp hall c (List.contains_iff_mem.mp h)

theorem hasHexPrefix_iff : hasHexPrefix cs = true ↔
    ∃ x rest, cs = '0' :: x :: rest ∧ (x = 'x' ∨ x = 'X') := by
  constructor
  · intro h
    unfold hasHexPrefix at h
    split at h
    · rename_i x rest
      exact ⟨x, rest, rfl, by simpa using h⟩
    · cases h
  · rintro ⟨x, rest, rfl, hx⟩
    simpa [hasHexPrefix] using hx

/-- No hexadecimal text has a prefix: `x` is no digit. -/
theorem hasHexPrefix_of_isHexText (h : isHexText cs = true) : hasHexPrefix cs = false := by
  rw [← Bool.not_eq_true, hasHexPrefix_iff]
  rintro ⟨x, rest, rfl, hx⟩
  have hdigit : isHexDigit x = true := List.all_eq_true.mp h x (by simp)
  rcases hx with rfl | rfl <;> exact absurd hdigit (by decide)

/-! ## Bytes -/

theorem isHexText_hexText : isHexText (hexText upper bytes) = true := by
  refine List.all_eq_true.mpr fun c hc => ?_
  obtain ⟨b, -, hb⟩ := List.mem_flatMap.mp hc
  have hlt : b.toNat < 256 := b.toNat_lt
  rcases List.mem_cons.mp hb with rfl | hb
  · exact (hexDigit_spec upper (by omega)).1
  · obtain rfl := List.mem_singleton.mp hb
    exact (hexDigit_spec upper (by omega)).1

theorem length_hexText : (hexText upper bytes).length = 2 * bytes.length := by
  induction bytes with
  | nil => rfl
  | cons b bytes ih =>
    change (hexText upper bytes).length + 2 = 2 * (bytes.length + 1)
    omega

/-- What is written for bytes is read back. -/
theorem fromHex_hexText : fromHex (hexText upper bytes) = bytes := by
  induction bytes with
  | nil => rfl
  | cons b bytes ih =>
    have hlt : b.toNat < 256 := b.toNat_lt
    change UInt8.ofNat (16 * hexValue (hexDigit upper (b.toNat / 16)) +
      hexValue (hexDigit upper (b.toNat % 16))) :: fromHex (hexText upper bytes) = b :: bytes
    have hbyte : 16 * (b.toNat / 16) + b.toNat % 16 = b.toNat := Nat.div_add_mod _ _
    rw [(hexDigit_spec upper (by omega)).2, (hexDigit_spec upper (by omega)).2, ih, hbyte,
      UInt8.ofNat_toNat]

/-! ## Numbers -/

theorem hexNumber_append_singleton (cs : List Char) (c : Char) :
    hexNumber (cs ++ [c]) = hexNumber cs * 16 + hexValue c := by
  simp only [hexNumber, ofDigits, List.map_append, List.map_cons, List.map_nil, List.foldl_append,
    List.foldl_cons, List.foldl_nil]

/-- Leading zeros count for nothing. -/
theorem hexNumber_replicate_append (k : ℕ) (cs : List Char) :
    hexNumber (List.replicate k '0' ++ cs) = hexNumber cs := by
  induction k with
  | zero => rfl
  | succ k ih =>
    rw [← ih]
    rfl

/-- The numeral of a number is read back. -/
theorem hexNumber_toDigits (n : ℕ) :
    isHexText ((Nat.toDigits 16 n).map Char.toUpper) = true ∧
      hexNumber ((Nat.toDigits 16 n).map Char.toUpper) = n := by
  induction n using Nat.strongRecOn with
  | ind n ih =>
    have hdigit (d : ℕ) (hd : d < 16) :
        isHexDigit d.digitChar.toUpper = true ∧ hexValue d.digitChar.toUpper = d :=
      hexDigit_spec true hd
    rw [Nat.toDigits_eq_if (by decide)]
    split
    · rename_i hlt
      obtain ⟨hhex, hvalue⟩ := hdigit n hlt
      refine ⟨by simp [isHexText, hhex], ?_⟩
      rw [← hvalue]
      simp [hexNumber, ofDigits, hvalue]
    -- the last digit, after the numeral of a sixteenth of the number
    · rename_i hge
      obtain ⟨hhex, hvalue⟩ := hdigit (n % 16) (Nat.mod_lt n (by decide))
      obtain ⟨ihhex, ihvalue⟩ := ih (n / 16) (Nat.div_lt_self (by omega) (by decide))
      rw [List.map_append, List.map_singleton]
      refine ⟨?_, ?_⟩
      · rw [isHexText, List.all_append, Bool.and_eq_true]
        exact ⟨ihhex, by simp [hhex]⟩
      · rw [hexNumber_append_singleton, ihvalue, hvalue]
        omega

end Python
