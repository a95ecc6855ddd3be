import Mathlib.Data.Int.Notation
import Mathlib.Data.Nat.Notation

/-!
# `int(text, 0)`

Integer literals as Python's `int` constructor reads them with base 0: optional
blanks around an optional sign, a radix prefix or plain decimal digits, single
underscores between digits, no nonzero decimal with a leading zero, and at most
4300 decimal digits. Non-ASCII blanks and decimal digits count as their ASCII
counterparts.
-/

set_option autoImplicit false

namespace Python

/-- Code points of the zero digits of the Unicode decimal digit runs outside
ASCII; each run holds ten consecutive digits. -/
def decimalZeros : List ℕ :=
  [0x660, 0x6f0, 0x7c0, 0x966, 0x9e6, 0xa66, 0xae6, 0xb66, 0xbe6, 0xc66, 0xce6, 0xd66,
   0xde6, 0xe50, 0xed0, 0xf20, 0x1040, 0x1090, 0x17e0, 0x1810, 0x1946, 0x19d0, 0x1a80,
   0x1a90, 0x1b50, 0x1bb0, 0x1c40, 0x1c50, 0xa620, 0xa8d0, 0xa900, 0xa9d0, 0xa9f0, 0xaa50,
   0xabf0, 0xff10, 0x104a0, 0x10d30, 0x11066, 0x110f0, 0x11136, 0x111d0, 0x112f0, 0x11450,
   0x114d0, 0x11650, 0x116c0, 0x11730, 0x118e0, 0x11950, 0x11c50, 0x11d50, 0x11da0, 0x11f50,
   0x16a60, 0x16ac0, 0x16b50, 0x1d7ce, 0x1d7d8, 0x1d7e2, 0x1d7ec, 0x1d7f6, 0x1e140, 0x1e2f0,
   0x1e4f0, 0x1e950, 0x1fbf0]

/-- The value of a non-ASCII decimal digit. -/
def unicodeDecimal (n : ℕ) : Option ℕ :=
  (decimalZeros.find? fun first => first ≤ n && n < first + 10).map fun first =>
    n - first

/-- White space outside ASCII. -/
def isUnicodeSpace (n : ℕ) : Bool :=
  n == 0x85 || n == 0xa0 || n == 0x1680 || (0x2000 ≤ n && n ≤ 0x200a) || n == 0x2028 ||
    n == 0x2029 || n == 0x202f || n == 0x205f || n == 0x3000

/-- Non-ASCII blanks and digits become ASCII ones, and any other non-ASCII
character becomes one that no literal contains. -/
def toAscii (c : Char) : Char :=
  let n := c.toNat
  if n < 127 then c
  else if isUnicodeSpace n then ' '
  else match unicodeDecimal n with
    | some d => Char.ofNat (0x30 + d)
    | none => '?'

/-- ASCII blanks that may surround a literal. -/
def isSpace (c : Char) : Bool := c == ' ' || (0x09 ≤ c.toNat && c.toNat ≤ 0x0d)

/-- Remove surrounding blanks. -/
def strip (cs : List Char) : List Char :=
  ((cs.dropWhile isSpace).reverse.dropWhile isSpace).reverse

/-- The value of a digit in the given base. -/
def digit (base : ℕ) (c : Char) : Option ℕ :=
  let n := c.toNat
  let d :=
    if 0x30 ≤ n && n ≤ 0x39 then n - 0x30
    else if 0x61 ≤ n && n ≤ 0x7a then n - 0x61 + 10
    else if 0x41 ≤ n && n ≤ 0x5a then n - 0x41 + 10
    else base
  if d < base then some d else none

/-- One digit or more, with single underscores allowed between digits. -/
def digits (base : ℕ) : List Char → Option (List ℕ)
  | [] => none
  | [c] => (digit base c).map fun d => [d]
  | c :: '_' :: rest => (digit base c).bind fun d => (digits base rest).map fun ds => d :: ds
  | c :: rest => (digit base c).bind fun d => (digits base rest).map fun ds => d :: ds

/-- The number a digit string denotes, most significant digit first. -/
def ofDigits (base : ℕ) (ds : List ℕ) : ℕ := ds.foldl (fun acc d => acc * base + d) 0

/-- The base named by the letter after a leading zero. -/
def prefixBase (c : Char) : Option ℕ :=
  if c == 'x' || c == 'X' then some 16
  else if c == 'o' || c == 'O' then some 8
  else if c == 'b' || c == 'B' then some 2
  else none

/-- Longest decimal literal the interpreter converts. -/
def maxDecimalDigits : ℕ := 4300

/-- An unsigned literal without a radix prefix. -/
def decimalLiteral (cs : List Char) : Option ℕ :=
  (digits 10 cs).bind fun ds =>
    let n := ofDigits 10 ds
    if maxDecimalDigits < ds.length then none
    else if cs.head? = some '0' ∧ n ≠ 0 then none
    else some n

/-- An unsigned literal; one underscore may follow a radix prefix. -/
def unsignedLiteral : List Char → Option ℕ
  | '0' :: p :: rest =>
    match prefixBase p with
    | some base =>
      let body := match rest with
        | '_' :: tail => tail
        | _ => rest
      (digits base body).map (ofDigits base)
    | none => decimalLiteral ('0' :: p :: rest)
  | cs => decimalLiteral cs

/-- `int(text, 0)`; `none` models `ValueError`. -/
def intLiteral (text : String) : Option ℤ :=
  match strip (text.toList.map toAscii) with
  | '-' :: rest => (unsignedLiteral rest).map fun n => -(n : ℤ)
  | '+' :: rest => (unsignedLiteral rest).map fun n => (n : ℤ)
  | cs => (unsignedLiteral cs).map fun n => (n : ℤ)

example : intLiteral " -0x_1F " = some (-31) := by decide
example : intLiteral "010" = none := by decide

end Python
