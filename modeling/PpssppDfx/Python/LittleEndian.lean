import Mathlib.Tactic.NormNum.Basic
import Mathlib.Tactic.SplitIfs
import Mathlib.Data.Int.Notation
import Mathlib.Data.Nat.Notation

/-!
# Little-endian integers

Unsigned integers as `struct` reads them from bytes and as `int.to_bytes` writes them, both
in little-endian order.

## Main results

* `littleEndian_lowBytes`, `lowBytes_littleEndian` — what is written is read back
* `toBytes_eq_some_iff` — the bytes written for an integer are those it is read from
-/

set_option autoImplicit false

namespace Python

/-- The unsigned integer of the bytes. -/
def littleEndian : List UInt8 → ℕ
  | [] => 0
  | b :: bytes => b.toNat + 256 * littleEndian bytes

/-- So many bytes of an integer, the low ones. -/
def lowBytes : ℕ → ℕ → List UInt8
  | 0, _ => []
  | size + 1, value => UInt8.ofNat (value % 256) :: lowBytes size (value / 256)

/-- `value.to_bytes(size, "little", signed=False)`: `none` is the `OverflowError`. -/
def toBytes (size : ℕ) (value : ℤ) : Option (List UInt8) :=
  if 0 ≤ value ∧ value < 256 ^ size then some (lowBytes size value.toNat) else none

variable {size value : ℕ}

@[simp] theorem length_lowBytes (size value : ℕ) : (lowBytes size value).length = size := by
  induction size generalizing value with
  | zero => rfl
  | succ size ih => rw [lowBytes, List.length_cons, ih]

theorem littleEndian_lt (bytes : List UInt8) : littleEndian bytes < 256 ^ bytes.length := by
  induction bytes with
  | nil => exact Nat.one_pos
  | cons b bytes ih =>
    have hb : b.toNat < 256 := b.toNat_lt
    rw [littleEndian, List.length_cons, Nat.pow_succ]
    omega

theorem littleEndian_lowBytes (h : value < 256 ^ size) :
    littleEndian (lowBytes size value) = value := by
  induction size generalizing value with
  | zero =>
    obtain rfl : value = 0 := by simpa using h
    rfl
  | succ size ih =>
    have hhigh : value / 256 < 256 ^ size := by
      rw [Nat.pow_succ] at h
      omega
    have hlow : (UInt8.ofNat (value % 256)).toNat = value % 256 := by
      rw [UInt8.toNat_ofNat']
      omega
    rw [lowBytes, littleEndian, ih hhigh, hlow]
    exact Nat.mod_add_div value 256

theorem lowBytes_littleEndian (bytes : List UInt8) :
    lowBytes bytes.length (littleEndian bytes) = bytes := by
  induction bytes with
  | nil => rfl
  | cons b bytes ih =>
    have hb : b.toNat < 256 := b.toNat_lt
    have hlow : (b.toNat + 256 * littleEndian bytes) % 256 = b.toNat := by omega
    have hhigh : (b.toNat + 256 * littleEndian bytes) / 256 = littleEndian bytes := by omega
    rw [List.length_cons, littleEndian, lowBytes, hlow, hhigh, ih, UInt8.ofNat_toNat]

/-- What is written for an integer stands for it, and nothing else of that length does. -/
theorem toBytes_eq_some_iff {value : ℤ} {target : List UInt8} :
    toBytes size value = some target ↔
      target.length = size ∧ (littleEndian target : ℤ) = value := by
  unfold toBytes
  constructor
  · intro h
    split_ifs at h with hfits
    obtain rfl := Option.some.inj h
    have hlt : value.toNat < 256 ^ size := by
      have hcast : ((value.toNat : ℕ) : ℤ) < ((256 ^ size : ℕ) : ℤ) := by
        rw [Int.toNat_of_nonneg hfits.1]
        exact_mod_cast hfits.2
      exact_mod_cast hcast
    rw [littleEndian_lowBytes hlt]
    exact ⟨length_lowBytes _ _, Int.toNat_of_nonneg hfits.1⟩
  · rintro ⟨rfl, rfl⟩
    have hlt : (littleEndian target : ℤ) < 256 ^ target.length := by
      exact_mod_cast littleEndian_lt target
    rw [if_pos ⟨Int.natCast_nonneg _, hlt⟩, Int.toNat_natCast, lowBytes_littleEndian]

end Python
