import PpssppDfx.Memory.Address
import PpssppDfx.Python.Base64

/-!
# The bytes of a write request

A request to write bytes gives them as a text, in hexadecimal digits or in base64. The server
takes a prefix `0x` off before it tells the two apart. A base64 text may begin with these
characters as well, and is cut short by them.

## Main definitions

* `Memory.decodeBytesInput` — the bytes of a text
* `Memory.Inverts` — the bytes are read back from every text that they are written as

## Main results

* `inverts_iff` — when they are
-/

set_option autoImplicit false

namespace Memory

open Python

/-- `_decode_bytes_input`, with the message of the `ArgsInvalid` that it raises. -/
def decodeBytesInput : Scalar → Except String (List UInt8)
  | .int _ | .bool _ => .error "data must be str when format='bytes'"
  | .str data =>
    let stripped := stripBlank data.toList
    let s := if hasHexPrefix stripped then stripped.drop 2 else stripped
    if s.length % 2 = 0 ∧ isHexText s then .ok (fromHex s)
    else
      match b64decode s with
      | .ok bytes => .ok bytes
      | .error e => .error ("could not decode data as hex or base64: " ++ e)

/-- An even number of hexadecimal digits, with or without a prefix. -/
def LooksHex (cs : List Char) : Prop :=
  cs.length % 2 = 0 ∧ isHexText cs = true ∨
    hasHexPrefix cs = true ∧ (cs.drop 2).length % 2 = 0 ∧ isHexText (cs.drop 2) = true

/-- The bytes are read back from their hexadecimal text, and from their base64 text if it does
not look like a hexadecimal one. -/
def Inverts (b : List UInt8) : Prop :=
  (∀ upper, ∀ mark ∈ ["", "0x", "0X"],
    decodeBytesInput (.str (mark ++ String.ofList (hexText upper b))) = .ok b) ∧
    (¬ LooksHex (b64encode b) →
      decodeBytesInput (.str (String.ofList (b64encode b))) = .ok b)

/-- The text begins with a prefix and does not go on in hexadecimal digits. -/
def Shadowed (cs : List Char) : Prop :=
  hasHexPrefix cs = true ∧ isHexText (cs.drop 2) = false

variable {cs : List Char} {b : List UInt8}

/-! ## Texts without blanks -/

theorem decodeBytesInput_of_prefixed (h : ∀ c ∈ cs, isBlank c = false)
    (hprefixed : hasHexPrefix cs = true) :
    decodeBytesInput (.str (String.ofList cs)) =
      if (cs.drop 2).length % 2 = 0 ∧ isHexText (cs.drop 2) then .ok (fromHex (cs.drop 2))
      else match b64decode (cs.drop 2) with
        | .ok bytes => .ok bytes
        | .error e => .error ("could not decode data as hex or base64: " ++ e) := by
  simp only [decodeBytesInput, String.toList_ofList, stripBlank_eq_self h, hprefixed, if_true]

theorem decodeBytesInput_of_unprefixed (h : ∀ c ∈ cs, isBlank c = false)
    (hprefixed : hasHexPrefix cs = false) :
    decodeBytesInput (.str (String.ofList cs)) =
      if cs.length % 2 = 0 ∧ isHexText cs then .ok (fromHex cs)
      else match b64decode cs with
        | .ok bytes => .ok bytes
        | .error e => .error ("could not decode data as hex or base64: " ++ e) := by
  simp only [decodeBytesInput, String.toList_ofList, stripBlank_eq_self h, hprefixed, if_false,
    Bool.false_eq_true]

/-! ## Hexadecimal texts -/

theorem isBlank_of_mem_hexText (upper : Bool) : ∀ c ∈ hexText upper b, isBlank c = false :=
  fun c hc => isBlank_of_isHexDigit (List.all_eq_true.mp isHexText_hexText c hc)

theorem decodeBytesInput_hexText (upper : Bool) :
    decodeBytesInput (.str (String.ofList (hexText upper b))) = .ok b := by
  have heven : (hexText upper b).length % 2 = 0 := by
    rw [length_hexText]
    omega
  rw [decodeBytesInput_of_unprefixed (isBlank_of_mem_hexText upper)
    (hasHexPrefix_of_isHexText isHexText_hexText), if_pos ⟨heven, isHexText_hexText⟩,
    fromHex_hexText]

/-- The prefix is taken off. -/
theorem decodeBytesInput_prefix_hexText (upper : Bool) {x : Char} (hx : x = 'x' ∨ x = 'X') :
    decodeBytesInput (.str (String.ofList ('0' :: x :: hexText upper b))) = .ok b := by
  have hblank : ∀ c ∈ '0' :: x :: hexText upper b, isBlank c = false := by
    simp only [List.forall_mem_cons]
    refine ⟨by decide, ?_, isBlank_of_mem_hexText upper⟩
    rcases hx with rfl | rfl <;> decide
  have heven : (hexText upper b).length % 2 = 0 := by
    rw [length_hexText]
    omega
  have hdrop : ('0' :: x :: hexText upper b).drop 2 = hexText upper b := rfl
  rw [decodeBytesInput_of_prefixed hblank (hasHexPrefix_iff.mpr ⟨x, _, rfl, hx⟩), hdrop,
    if_pos ⟨heven, isHexText_hexText⟩, fromHex_hexText]

/-! ## Base64 texts -/

theorem isBlank_of_mem_b64encode : ∀ c ∈ b64encode b, isBlank c = false :=
  forall_mem_b64encode (by decide +kernel) (by decide)

/-- Without the prefix the text is read as it stands. -/
theorem decodeBytesInput_b64encode (hprefixed : hasHexPrefix (b64encode b) = false)
    (hhex : ¬ LooksHex (b64encode b)) :
    decodeBytesInput (.str (String.ofList (b64encode b))) = .ok b := by
  rw [decodeBytesInput_of_unprefixed isBlank_of_mem_b64encode hprefixed,
    if_neg fun h => hhex (Or.inl h), b64decode_b64encode]

/-- A text that loses two characters has fewer bytes than it was written for. -/
theorem decodeBytesInput_b64encode_ne (h : Shadowed (b64encode b)) :
    decodeBytesInput (.str (String.ofList (b64encode b))) ≠ .ok b := by
  obtain ⟨hprefixed, hhex⟩ := h
  intro hread
  rw [decodeBytesInput_of_prefixed isBlank_of_mem_b64encode hprefixed,
    if_neg (by simp [hhex])] at hread
  split at hread
  · rename_i bytes hbytes
    obtain rfl := Except.ok.inj hread
    obtain ⟨x, rest, hsplit, hx⟩ := hasHexPrefix_iff.mp hprefixed
    have hbits := bitsOf_b64encode_le bytes
    have hleft := length_b64decode_le hbytes
    -- the two characters carry twelve bits, which are more than a byte
    have hlost : bitsOf ('0' :: x :: rest) = bitsOf rest + 6 + 6 := by
      have hzero : (b64Value '0').isSome = true := by decide
      have hvalue : (b64Value x).isSome = true := by
        rcases hx with rfl | rfl <;> decide
      rw [bitsOf_cons, bitsOf_cons, if_pos hzero, if_pos hvalue]
    rw [hsplit] at hbits hleft
    change 8 * bytes.length ≤ bitsOf rest at hleft
    omega
  · cases hread

/-- The bytes are read back exactly when their base64 text is not shadowed by a prefix that is
none. -/
theorem inverts_iff (b : List UInt8) : Inverts b ↔ ¬ Shadowed (b64encode b) := by
  constructor
  · rintro ⟨-, hbase64⟩ hshadowed
    -- a text that is shadowed does not look hexadecimal
    refine decodeBytesInput_b64encode_ne hshadowed (hbase64 ?_)
    rintro (⟨-, hhex⟩ | ⟨-, -, hhex⟩)
    · exact absurd hshadowed.1 (by simp [hasHexPrefix_of_isHexText hhex])
    · rw [hshadowed.2] at hhex
      cases hhex
  · intro hnot
    refine ⟨fun upper mark hmark => ?_, fun hhex => ?_⟩
    · have hjoin (x : Char) : String.ofList ['0', x] ++ String.ofList (hexText upper b) =
          String.ofList ('0' :: x :: hexText upper b) := (String.ofList_append).symm
      simp only [List.mem_cons, List.not_mem_nil, or_false] at hmark
      rcases hmark with rfl | rfl | rfl
      · rw [String.empty_append]
        exact decodeBytesInput_hexText upper
      · exact hjoin 'x' ▸ decodeBytesInput_prefix_hexText upper (Or.inl rfl)
      · exact hjoin 'X' ▸ decodeBytesInput_prefix_hexText upper (Or.inr rfl)
    · cases hprefixed : hasHexPrefix (b64encode b) with
      | false => exact decodeBytesInput_b64encode hprefixed hhex
      | true =>
        -- the text has a prefix and an even length, so what follows is not hexadecimal
        have heven : ((b64encode b).drop 2).length % 2 = 0 := by
          have hgroups := length_b64encode_mod b
          rw [List.length_drop]
          omega
        refine absurd ⟨hprefixed, ?_⟩ hnot
        rw [← Bool.not_eq_true]
        exact fun hrest => hhex (Or.inr ⟨hprefixed, heven, hrest⟩)

/-- Three bytes whose base64 text is `0xyz`. -/
def shadowedBytes : List UInt8 := [0xd3, 0x1c, 0xb3]

/-- The text is cut to `yz` and refused. -/
theorem not_inverts_shadowedBytes :
    shadowedBytes ≠ [] ∧ b64encode shadowedBytes = "0xyz".toList ∧
      ¬ LooksHex (b64encode shadowedBytes) ∧
      decodeBytesInput (.str "0xyz") =
        .error "could not decode data as hex or base64: Incorrect padding" ∧
      ¬ ∀ b : List UInt8, b ≠ [] → Inverts b := by
  have htext : b64encode shadowedBytes = "0xyz".toList := by decide
  have hshadowed : Shadowed (b64encode shadowedBytes) := by
    rw [htext]
    exact ⟨rfl, by decide⟩
  have hhex : ¬ LooksHex (b64encode shadowedBytes) := by
    rw [htext]
    rintro (⟨-, hhex⟩ | ⟨-, -, hhex⟩)
    · exact absurd hhex (by decide)
    · exact absurd hhex (by decide)
  refine ⟨by decide, htext, hhex, by decide, fun hall => ?_⟩
  exact decodeBytesInput_b64encode_ne hshadowed ((hall shadowedBytes (by decide)).2 hhex)

end Memory
