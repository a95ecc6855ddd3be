import Mathlib.Data.List.Basic
import Mathlib.Tactic.Ring

/-!
# Decoding UTF-8 with replacement

`bytes.decode("utf-8", errors="replace")`: the bytes of a character may be cut off or may not
belong together. As many bytes as could begin a character are replaced at once, and decoding
goes on with the first byte that does not fit.

## Main definitions

* `Python.decodeUtf8` — the decoder

## Main results

* `Python.decodeUtf8_flatMap` — what was encoded is decoded
* `Python.length_le_decodeUtf8` — encoding a decoded text never makes it shorter
-/

set_option autoImplicit false

namespace Python

/-- U+FFFD. -/
def replacement : Char := Char.ofNat 0xFFFD

/-- The first bytes of a character: how many bytes it has, how many are still to come, and the
bits so far. -/
structure Partial where
  length : ℕ
  left : ℕ
  value : ℕ

/-- The least byte that can come next. It rules out encodings that are longer than they need. -/
def Partial.low (p : Partial) : ℕ :=
  match p.length, p.left, p.value with
  | 3, 2, 0 => 0xA0
  | 4, 3, 0 => 0x90
  | _, _, _ => 0x80

/-- The greatest byte that can come next. It rules out surrogates and values that are no
characters. -/
def Partial.high (p : Partial) : ℕ :=
  match p.length, p.left, p.value with
  | 3, 2, 0xD => 0x9F
  | 4, 3, 4 => 0x8F
  | _, _, _ => 0xBF

/-- A byte between characters. -/
def lead (b : ℕ) : Char ⊕ Partial :=
  if b < 0x80 then .inl (Char.ofNat b)
  else if b < 0xC2 then .inl replacement
  else if b < 0xE0 then .inr ⟨2, 1, b - 0xC0⟩
  else if b < 0xF0 then .inr ⟨3, 2, b - 0xE0⟩
  else if b < 0xF5 then .inr ⟨4, 3, b - 0xF0⟩
  else .inl replacement

/-- The bits with those of one more byte. -/
def Partial.extend (p : Partial) (b : ℕ) : ℕ := p.value * 64 + (b - 0x80)

/-- Decode, after the first bytes of a character or between characters. -/
def decodeFrom : Option Partial → List UInt8 → List Char
  | none, [] => []
  | some _, [] => [replacement]
  | none, b :: rest =>
    match lead b.toNat with
    | .inl c => c :: decodeFrom none rest
    | .inr p => decodeFrom (some p) rest
  | some p, b :: rest =>
    if p.low ≤ b.toNat ∧ b.toNat ≤ p.high then
      if p.left = 1 then Char.ofNat (p.extend b.toNat) :: decodeFrom none rest
      else decodeFrom (some ⟨p.length, p.left - 1, p.extend b.toNat⟩) rest
    else
      -- the byte that does not fit is read again
      match lead b.toNat with
      | .inl c => replacement :: c :: decodeFrom none rest
      | .inr q => replacement :: decodeFrom (some q) rest

/-- `decode("utf-8", errors="replace")`. -/
def decodeUtf8 (bytes : List UInt8) : List Char := decodeFrom none bytes

example : decodeUtf8 [0x61, 0xE3, 0x81, 0x61, 0xED, 0xA0, 0x80, 0xC2] =
    ['a', replacement, 'a', replacement, replacement, replacement, replacement] := by decide

/-! ## Encoded text -/

section Encoded

variable {p : Partial} {b : ℕ} {rest : List UInt8}

theorem toNat_ofNat_of_lt (h : b < 256) : (UInt8.ofNat b).toNat = b := by
  rw [UInt8.toNat_ofNat', Nat.mod_eq_of_lt h]

theorem decodeFrom_lead (hb : b < 256) (h : lead b = .inr p) :
    decodeFrom none (UInt8.ofNat b :: rest) = decodeFrom (some p) rest := by
  rw [decodeFrom, toNat_ofNat_of_lt hb, h]

theorem decodeFrom_more (hb : b < 256) (hlow : p.low ≤ b) (hhigh : b ≤ p.high)
    (hleft : p.left ≠ 1) : decodeFrom (some p) (UInt8.ofNat b :: rest) =
      decodeFrom (some ⟨p.length, p.left - 1, p.extend b⟩) rest := by
  rw [decodeFrom, toNat_ofNat_of_lt hb, if_pos ⟨hlow, hhigh⟩, if_neg hleft]

theorem decodeFrom_last (hb : b < 256) (hlow : p.low ≤ b) (hhigh : b ≤ p.high)
    (hleft : p.left = 1) : decodeFrom (some p) (UInt8.ofNat b :: rest) =
      Char.ofNat (p.extend b) :: decodeFrom none rest := by
  rw [decodeFrom, toNat_ofNat_of_lt hb, if_pos ⟨hlow, hhigh⟩, if_pos hleft]

theorem lead_two {v : ℕ} (hlow : 2 ≤ v) (hhigh : v < 32) : lead (v + 0xC0) = .inr ⟨2, 1, v⟩ := by
  rw [lead, if_neg (by omega), if_neg (by omega), if_pos (by omega), Nat.add_sub_cancel]

theorem lead_three {v : ℕ} (h : v < 16) : lead (v + 0xE0) = .inr ⟨3, 2, v⟩ := by
  rw [lead, if_neg (by omega), if_neg (by omega), if_neg (by omega), if_pos (by omega),
    Nat.add_sub_cancel]

theorem lead_four {v : ℕ} (h : v < 5) : lead (v + 0xF0) = .inr ⟨4, 3, v⟩ := by
  rw [lead, if_neg (by omega), if_neg (by omega), if_neg (by omega), if_neg (by omega),
    if_pos (by omega), Nat.add_sub_cancel]

theorem low_three (v : ℕ) : (Partial.mk 3 2 v).low = if v = 0 then 0xA0 else 0x80 := by
  cases v <;> rfl

theorem high_three (v : ℕ) : (Partial.mk 3 2 v).high = if v = 0xD then 0x9F else 0xBF := by
  by_cases hv : v = 0xD
  · subst hv
    rfl
  · rw [if_neg hv]
    unfold Partial.high
    split <;> simp_all

theorem low_four (v : ℕ) : (Partial.mk 4 3 v).low = if v = 0 then 0x90 else 0x80 := by
  cases v <;> rfl

theorem high_four (v : ℕ) : (Partial.mk 4 3 v).high = if v = 4 then 0x8F else 0xBF := by
  by_cases hv : v = 4
  · subst hv
    rfl
  · rw [if_neg hv]
    unfold Partial.high
    split <;> simp_all

theorem extend_add (x : ℕ) : p.extend (x + 0x80) = p.value * 64 + x := by
  unfold Partial.extend
  omega

/-- A continuation byte after the second byte of a character, or after the first of two. -/
theorem decodeFrom_tail {x : ℕ} (hx : x < 64) (hlow : p.low = 0x80) (hhigh : p.high = 0xBF)
    (hleft : p.left ≠ 1) : decodeFrom (some p) (UInt8.ofNat (x + 0x80) :: rest) =
      decodeFrom (some ⟨p.length, p.left - 1, p.value * 64 + x⟩) rest := by
  rw [decodeFrom_more (by omega) (by omega) (by omega) hleft, extend_add]

theorem decodeFrom_end {x : ℕ} (hx : x < 64) (hlow : p.low = 0x80) (hhigh : p.high = 0xBF)
    (hleft : p.left = 1) : decodeFrom (some p) (UInt8.ofNat (x + 0x80) :: rest) =
      Char.ofNat (p.value * 64 + x) :: decodeFrom none rest := by
  rw [decodeFrom_last (by omega) (by omega) (by omega) hleft, extend_add]

theorem decodeFrom_two {x y : ℕ} (hx : 2 ≤ x) (hx' : x < 32) (hy : y < 64) :
    decodeFrom none (UInt8.ofNat (x + 0xC0) :: UInt8.ofNat (y + 0x80) :: rest) =
      Char.ofNat (x * 64 + y) :: decodeFrom none rest := by
  rw [decodeFrom_lead (by omega) (lead_two hx hx'), decodeFrom_end hy rfl rfl rfl]

theorem decodeFrom_three {x y z : ℕ} (hx : x < 16) (hy : y < 64) (hz : z < 64)
    (hlong : 0x20 ≤ x * 64 + y) (hsurrogate : x * 64 + y < 0x360 ∨ 0x37F < x * 64 + y) :
    decodeFrom none (UInt8.ofNat (x + 0xE0) :: UInt8.ofNat (y + 0x80) ::
      UInt8.ofNat (z + 0x80) :: rest) =
        Char.ofNat ((x * 64 + y) * 64 + z) :: decodeFrom none rest := by
  rw [decodeFrom_lead (by omega) (lead_three hx), decodeFrom_more (by omega) ?_ ?_ (show 2 ≠ 1 by
    decide), extend_add, decodeFrom_end hz rfl rfl rfl]
  · rw [low_three]
    split <;> omega
  · rw [high_three]
    split <;> omega

theorem decodeFrom_four {x y z w : ℕ} (hx : x < 5) (hy : y < 64) (hz : z < 64) (hw : w < 64)
    (hlong : 0x10 ≤ x * 64 + y) (hlast : x * 64 + y ≤ 0x10F) :
    decodeFrom none (UInt8.ofNat (x + 0xF0) :: UInt8.ofNat (y + 0x80) ::
      UInt8.ofNat (z + 0x80) :: UInt8.ofNat (w + 0x80) :: rest) =
        Char.ofNat (((x * 64 + y) * 64 + z) * 64 + w) :: decodeFrom none rest := by
  rw [decodeFrom_lead (by omega) (lead_four hx), decodeFrom_more (by omega) ?_ ?_ (show 3 ≠ 1 by
    decide), extend_add, decodeFrom_tail hz rfl rfl (show 2 ≠ 1 by decide),
    decodeFrom_end hw rfl rfl rfl]
  · rw [low_four]
    split <;> omega
  · rw [high_four]
    split <;> omega

/-- What was encoded is decoded. -/
theorem decodeFrom_utf8EncodeChar (c : Char) :
    decodeFrom none (String.utf8EncodeChar c ++ rest) = c :: decodeFrom none rest := by
  obtain ⟨v, hv⟩ : ∃ v, c.val.toNat = v := ⟨_, rfl⟩
  have hvalid : v < 0xD800 ∨ 0xDFFF < v ∧ v < 0x110000 := hv ▸ c.valid
  have hchar : Char.ofNat v = c := by
    rw [← hv]
    exact Char.ofNat_toNat c
  unfold String.utf8EncodeChar
  simp only [hv]
  split
  · rename_i hone
    rw [List.singleton_append, decodeFrom, toNat_ofNat_of_lt (by omega), lead, if_pos (by omega),
      hchar]
  · split
    · rename_i hone htwo
      have hsum : v / 64 % 0x20 * 64 + v % 0x40 = v := by omega
      rw [List.cons_append, List.cons_append, List.nil_append,
        decodeFrom_two (by omega) (by omega) (by omega), hsum, hchar]
    · split
      · rename_i htwo hthree
        have hsum : (v / 4096 % 0x10 * 64 + v / 64 % 0x40) * 64 + v % 0x40 = v := by omega
        rw [List.cons_append, List.cons_append, List.cons_append, List.nil_append,
          decodeFrom_three (by omega) (by omega) (by omega) (by omega) (by omega), hsum, hchar]
      · rename_i hthree
        have hsum : ((v / 262144 % 0x08 * 64 + v / 4096 % 0x40) * 64 + v / 64 % 0x40) * 64 +
            v % 0x40 = v := by omega
        rw [List.cons_append, List.cons_append, List.cons_append, List.cons_append,
          List.nil_append, decodeFrom_four (by omega) (by omega) (by omega) (by omega) (by omega)
            (by omega), hsum, hchar]

/-- An encoded text is decoded, whatever bytes follow it. -/
theorem decodeUtf8_flatMap (cs : List Char) (rest : List UInt8) :
    decodeUtf8 (cs.flatMap String.utf8EncodeChar ++ rest) = cs ++ decodeUtf8 rest := by
  induction cs with
  | nil => rfl
  | cons c cs ih =>
    rw [List.flatMap_cons, List.append_assoc, decodeUtf8, decodeFrom_utf8EncodeChar,
      List.cons_append]
    exact congrArg _ ih

/-- A character that is cut off is replaced once. -/
theorem decodeFrom_take {c : Char} {k : ℕ} (hpos : 0 < k)
    (hlt : k < (String.utf8EncodeChar c).length) :
    decodeFrom none ((String.utf8EncodeChar c).take k) = [replacement] := by
  obtain ⟨v, hv⟩ : ∃ v, c.val.toNat = v := ⟨_, rfl⟩
  have hvalid : v < 0xD800 ∨ 0xDFFF < v ∧ v < 0x110000 := hv ▸ c.valid
  unfold String.utf8EncodeChar at hlt ⊢
  simp only [hv] at hlt ⊢
  split_ifs at hlt ⊢
  · simp only [List.length_singleton] at hlt
    omega
  · simp only [List.length_cons, List.length_nil] at hlt
    obtain rfl : k = 1 := by omega
    rw [List.take_succ_cons, List.take_zero,
      decodeFrom_lead (by omega) (lead_two (by omega) (by omega)), decodeFrom]
  · simp only [List.length_cons, List.length_nil] at hlt
    obtain rfl | rfl : k = 1 ∨ k = 2 := by omega
    · rw [List.take_succ_cons, List.take_zero, decodeFrom_lead (by omega) (lead_three (by omega)),
        decodeFrom]
    · rw [List.take_succ_cons, List.take_succ_cons, List.take_zero,
        decodeFrom_lead (by omega) (lead_three (by omega)),
        decodeFrom_more (by omega) ?_ ?_ (show 2 ≠ 1 by decide), decodeFrom]
      · rw [low_three]
        split <;> omega
      · rw [high_three]
        split <;> omega
  · simp only [List.length_cons, List.length_nil] at hlt
    have hlow : (Partial.mk 4 3 (v / 262144 % 0x08)).low ≤ v / 4096 % 0x40 + 0x80 := by
      rw [low_four]
      split <;> omega
    have hhigh : v / 4096 % 0x40 + 0x80 ≤ (Partial.mk 4 3 (v / 262144 % 0x08)).high := by
      rw [high_four]
      split <;> omega
    obtain rfl | rfl | rfl : k = 1 ∨ k = 2 ∨ k = 3 := by omega
    · rw [List.take_succ_cons, List.take_zero, decodeFrom_lead (by omega) (lead_four (by omega)),
        decodeFrom]
    · rw [List.take_succ_cons, List.take_succ_cons, List.take_zero,
        decodeFrom_lead (by omega) (lead_four (by omega)),
        decodeFrom_more (by omega) hlow hhigh (show 3 ≠ 1 by decide), decodeFrom]
    · rw [List.take_succ_cons, List.take_succ_cons, List.take_succ_cons, List.take_zero,
        decodeFrom_lead (by omega) (lead_four (by omega)),
        decodeFrom_more (by omega) hlow hhigh (show 3 ≠ 1 by decide),
        decodeFrom_tail (by omega) rfl rfl (show 2 ≠ 1 by decide), decodeFrom]

/-- An encoded text that is cut off: the characters before the cut, and one replacement if the
cut goes through a character. -/
theorem decodeUtf8_take_flatMap (cs : List Char) (n : ℕ) :
    ∃ front, front <+: cs ∧
      (decodeUtf8 ((cs.flatMap String.utf8EncodeChar).take n) = front ∨
        decodeUtf8 ((cs.flatMap String.utf8EncodeChar).take n) = front ++ [replacement]) := by
  induction cs generalizing n with
  | nil => exact ⟨[], List.prefix_rfl, Or.inl (by simp [decodeUtf8, decodeFrom])⟩
  | cons c cs ih =>
    rw [List.flatMap_cons]
    by_cases hcut : n < (String.utf8EncodeChar c).length
    · refine ⟨[], List.nil_prefix, ?_⟩
      rw [List.take_append_of_le_length (by omega)]
      rcases Nat.eq_zero_or_pos n with rfl | hpos
      · exact Or.inl rfl
      · exact Or.inr (decodeFrom_take hpos hcut)
    · obtain ⟨front, hfront, hdecode⟩ := ih (n - (String.utf8EncodeChar c).length)
      refine ⟨c :: front, List.cons_prefix_cons.mpr ⟨rfl, hfront⟩, ?_⟩
      rw [List.take_append, List.take_of_length_le (by omega), decodeUtf8,
        decodeFrom_utf8EncodeChar]
      exact hdecode.imp (congrArg _) (congrArg _)

end Encoded

/-! ## Decoded text -/

/-- The first bytes of some character. -/
def Partial.Valid (p : Partial) : Prop :=
  (p.length = 2 ∧ p.left = 1 ∧ 2 ≤ p.value ∧ p.value < 32) ∨
  (p.length = 3 ∧ p.left = 2 ∧ p.value < 16) ∨
  (p.length = 3 ∧ p.left = 1 ∧ 0x20 ≤ p.value ∧ p.value < 0x400 ∧
    (p.value < 0x360 ∨ 0x37F < p.value)) ∨
  (p.length = 4 ∧ p.left = 3 ∧ p.value < 5) ∨
  (p.length = 4 ∧ p.left = 2 ∧ 0x10 ≤ p.value ∧ p.value < 0x110) ∨
  (p.length = 4 ∧ p.left = 1 ∧ 0x400 ≤ p.value ∧ p.value < 0x4400)

section Decoded

variable {p : Partial} {b : ℕ}

theorem valid_lead (h : lead b = .inr p) : p.Valid ∧ p.length = p.left + 1 := by
  unfold lead at h
  split_ifs at h
  · obtain rfl := Sum.inr.inj h
    exact ⟨Or.inl ⟨rfl, rfl, by simp only; omega⟩, rfl⟩
  · obtain rfl := Sum.inr.inj h
    exact ⟨Or.inr (Or.inl ⟨rfl, rfl, by simp only; omega⟩), rfl⟩
  · obtain rfl := Sum.inr.inj h
    exact ⟨Or.inr (Or.inr (Or.inr (Or.inl ⟨rfl, rfl, by simp only; omega⟩))), rfl⟩

/-- A byte that fits is a continuation byte. -/
theorem continuation_of_fits (hlow : p.low ≤ b) (hhigh : b ≤ p.high) : 0x80 ≤ b ∧ b ≤ 0xBF := by
  constructor
  · refine le_trans ?_ hlow
    unfold Partial.low
    split <;> decide
  · refine le_trans hhigh ?_
    unfold Partial.high
    split <;> decide

/-- The encoding of the character with a number. -/
theorem length_encode_ofNat {v : ℕ} (hv : v < 0xD800 ∨ 0xDFFF < v ∧ v < 0x110000) :
    (String.utf8EncodeChar (Char.ofNat v)).length =
      if v ≤ 0x7F then 1 else if v ≤ 0x7FF then 2 else if v ≤ 0xFFFF then 3 else 4 := by
  have hval : (Char.ofNat v).val.toNat = v := by
    rw [Char.ofNat, dif_pos hv]
    rfl
  unfold String.utf8EncodeChar
  simp only [hval]
  split_ifs <;> rfl

/-- With its last byte a character is complete, and has as many bytes as were read. -/
theorem length_encode_last (h : p.Valid) (hlow : p.low ≤ b) (hhigh : b ≤ p.high)
    (hleft : p.left = 1) :
    (String.utf8EncodeChar (Char.ofNat (p.extend b))).length = p.length := by
  obtain ⟨hmin, hmax⟩ := continuation_of_fits hlow hhigh
  have hext : p.extend b = p.value * 64 + (b - 0x80) := rfl
  rcases h with ⟨hlen, _, hv⟩ | ⟨_, hl, _⟩ | ⟨hlen, _, hv⟩ | ⟨_, hl, _⟩ | ⟨_, hl, _⟩ | ⟨hlen, _, hv⟩
  · rw [length_encode_ofNat (by omega), hlen, if_neg (by omega), if_pos (by omega)]
  · omega
  · rw [length_encode_ofNat (by omega), hlen, if_neg (by omega), if_neg (by omega),
      if_pos (by omega)]
  · omega
  · omega
  · rw [length_encode_ofNat (by omega), hlen, if_neg (by omega), if_neg (by omega),
      if_neg (by omega)]

/-- With a byte that fits, the bytes still begin a character. -/
theorem valid_extend (h : p.Valid) (hlow : p.low ≤ b) (hhigh : b ≤ p.high) (hleft : p.left ≠ 1) :
    Partial.Valid ⟨p.length, p.left - 1, p.extend b⟩ := by
  obtain ⟨hmin, hmax⟩ := continuation_of_fits hlow hhigh
  have hext : p.extend b = p.value * 64 + (b - 0x80) := rfl
  obtain ⟨length, left, value⟩ := p
  simp only at hleft hext
  rcases h with ⟨_, hl, _⟩ | ⟨rfl, rfl, hv⟩ | ⟨_, hl, _⟩ | ⟨rfl, rfl, hv⟩ | ⟨rfl, rfl, hv⟩ |
    ⟨_, hl, _⟩
  · exact absurd hl hleft
  · rw [low_three] at hlow
    rw [high_three] at hhigh
    refine Or.inr (Or.inr (Or.inl ⟨rfl, rfl, ?_⟩))
    simp only at hv ⊢
    split at hlow <;> split at hhigh <;> omega
  · exact absurd hl hleft
  · rw [low_four] at hlow
    rw [high_four] at hhigh
    refine Or.inr (Or.inr (Or.inr (Or.inr (Or.inl ⟨rfl, rfl, ?_⟩))))
    simp only at hv ⊢
    split at hlow <;> split at hhigh <;> omega
  · refine Or.inr (Or.inr (Or.inr (Or.inr (Or.inr ⟨rfl, rfl, ?_⟩))))
    simp only at hv ⊢
    omega
  · exact absurd hl hleft

/-- How many bytes of a character have been read. -/
def consumed : Option Partial → ℕ
  | none => 0
  | some p => p.length - p.left

theorem Partial.Valid.bounds (h : p.Valid) : 1 ≤ p.left ∧ p.left < p.length ∧ p.length ≤ 4 := by
  unfold Partial.Valid at h
  omega

theorem length_encode_replacement : (String.utf8EncodeChar replacement).length = 3 := by decide

theorem length_flatMap_cons (c : Char) (cs : List Char) :
    ((c :: cs).flatMap String.utf8EncodeChar).length =
      (String.utf8EncodeChar c).length + (cs.flatMap String.utf8EncodeChar).length := by
  rw [List.flatMap_cons, List.length_append]

/-- No byte is lost: a replacement character is as long as the bytes it stands for, or longer. -/
theorem length_le_decodeFrom (bytes : List UInt8) :
    ∀ st : Option Partial, (∀ p, st = some p → p.Valid) →
      bytes.length + consumed st ≤
        ((decodeFrom st bytes).flatMap String.utf8EncodeChar).length := by
  induction bytes with
  | nil =>
    intro st hst
    cases st with
    | none => exact Nat.zero_le _
    | some p =>
      obtain ⟨_, _, hlen⟩ := (hst p rfl).bounds
      rw [decodeFrom, length_flatMap_cons, length_encode_replacement, consumed]
      simp only [List.length_nil]
      omega
  | cons b rest ih =>
    have hfresh := ih none fun p hp => absurd hp (Option.some_ne_none p).symm
    have hlead {p : Partial} (hp : lead b.toNat = .inr p) :
        rest.length + 1 ≤ ((decodeFrom (some p) rest).flatMap String.utf8EncodeChar).length := by
      obtain ⟨hvalid, hlength⟩ := valid_lead hp
      have hrest := ih (some p) fun q hq => Option.some.inj hq ▸ hvalid
      rw [consumed] at hrest
      omega
    have hpos (c : Char) : 1 ≤ (String.utf8EncodeChar c).length :=
      List.length_pos_iff.mpr String.utf8EncodeChar_ne_nil
    simp only [consumed, Nat.add_zero] at hfresh
    intro st hst
    cases st with
    | none =>
      rw [decodeFrom, List.length_cons, consumed]
      cases hb : lead b.toNat with
      | inl c =>
        have hc := hpos c
        simp only [length_flatMap_cons]
        omega
      | inr p => exact hlead hb
    | some p =>
      have hvalid := hst p rfl
      obtain ⟨hleft, hlt, hlen⟩ := hvalid.bounds
      rw [decodeFrom, List.length_cons, consumed]
      split_ifs with hfits hlast
      · rw [length_flatMap_cons, length_encode_last hvalid hfits.1 hfits.2 hlast]
        omega
      · have hrest := ih (some ⟨p.length, p.left - 1, p.extend b.toNat⟩) fun q hq =>
          Option.some.inj hq ▸ valid_extend hvalid hfits.1 hfits.2 hlast
        simp only [consumed] at hrest
        omega
      · cases hb : lead b.toNat with
        | inl c =>
          have hc := hpos c
          simp only [length_flatMap_cons, length_encode_replacement]
          omega
        | inr q =>
          have hq := hlead hb
          simp only [length_flatMap_cons, length_encode_replacement]
          omega

theorem length_le_decodeUtf8 (bytes : List UInt8) :
    bytes.length ≤ ((decodeUtf8 bytes).flatMap String.utf8EncodeChar).length :=
  length_le_decodeFrom bytes none fun p hp => absurd hp (Option.some_ne_none p).symm

end Decoded

end Python
