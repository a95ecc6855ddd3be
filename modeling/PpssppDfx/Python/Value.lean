import Mathlib.Data.List.Infix
import PpssppDfx.Python.Integer

/-!
# Dynamically typed values

The values that parsed YAML and JSON documents are made of, with the operations
the server applies to them before it knows their type: truth tests, key lookup
and conversion to text.
-/

set_option autoImplicit false

namespace Python

/-- A value of a parsed document. Floats and the types no check looks into
(dates, bytes) carry only what truth tests and text conversion read. -/
inductive Value where
  | none
  | bool (b : Bool)
  | int (n : ℤ)
  | float (nonzero : Bool) (text : String)
  | str (s : String)
  | list (items : List Value)
  | dict (entries : List (Value × Value))
  | other (truth : Bool) (text : String)

/-- The entries of a dictionary in insertion order. -/
abbrev Dict := List (Value × Value)

/-- `mapping.get(key)` for a string key. -/
def Dict.get? : Dict → String → Option Value
  | [], _ => Option.none
  | (.str k, v) :: rest, key => if k = key then some v else Dict.get? rest key
  | _ :: rest, key => Dict.get? rest key

/-- `mapping[key] = value`. -/
def Dict.set : Dict → String → Value → Dict
  | [], key, value => [(.str key, value)]
  | (.str k, v) :: rest, key, value =>
    if k = key then (.str k, value) :: rest else (.str k, v) :: Dict.set rest key value
  | entry :: rest, key, value => entry :: Dict.set rest key value

namespace Value

/-- Python truth of a value. -/
def truthy : Value → Bool
  | .none => false
  | .bool b => b
  | .int n => n != 0
  | .float nonzero _ => nonzero
  | .str s => s != ""
  | .list items => !items.isEmpty
  | .dict entries => !entries.isEmpty
  | .other truth _ => truth

/-- `isinstance(value, (dict, list))`. -/
def isContainer : Value → Bool
  | .list _ => true
  | .dict _ => true
  | _ => false

/-- `value or default`. -/
def orElse (v dflt : Value) : Value := if v.truthy then v else dflt

end Value

/-- Two lower-case hexadecimal digits. -/
def hexByte (n : ℕ) : String :=
  let text := String.ofList (Nat.toDigits 16 n)
  if n < 16 then "0" ++ text else text

/-- `repr` of a string. Characters outside ASCII are kept: no check reads them. -/
def strRepr (s : String) : String :=
  let quote := if s.toList.contains (Char.ofNat 39) && !s.toList.contains (Char.ofNat 34)
    then Char.ofNat 34 else Char.ofNat 39
  let escape (c : Char) : String :=
    if c = quote ∨ c = Char.ofNat 92 then String.ofList [Char.ofNat 92, c]
    else if c = Char.ofNat 10 then String.ofList [Char.ofNat 92, 'n']
    else if c = Char.ofNat 13 then String.ofList [Char.ofNat 92, 'r']
    else if c = Char.ofNat 9 then String.ofList [Char.ofNat 92, 't']
    else if c.toNat < 32 ∨ c.toNat = 127 then
      String.ofList [Char.ofNat 92, 'x'] ++ hexByte c.toNat
    else c.toString
  quote.toString ++ s.toList.foldl (fun acc c => acc ++ escape c) "" ++ quote.toString

mutual

/-- `repr(value)`. -/
def reprValue : Value → String
  | .none => "None"
  | .bool b => if b then "True" else "False"
  | .int n => toString n
  | .float _ text => text
  | .str s => strRepr s
  | .list items => "[" ++ reprItems items ++ "]"
  | .dict entries => "\x7b" ++ reprEntries entries ++ "\x7d"
  | .other _ text => text

/-- The items of a list, separated by commas. -/
def reprItems : List Value → String
  | [] => ""
  | [v] => reprValue v
  | v :: w :: rest => reprValue v ++ ", " ++ reprItems (w :: rest)

/-- The entries of a dictionary, separated by commas. -/
def reprEntries : List (Value × Value) → String
  | [] => ""
  | [(k, v)] => reprValue k ++ ": " ++ reprValue v
  | (k, v) :: e :: rest => reprValue k ++ ": " ++ reprValue v ++ ", " ++ reprEntries (e :: rest)

end

/-- `str(value)`. -/
def Value.text : Value → String
  | .str s => s
  | v => reprValue v

/-- `fragment in text.lower()` for a lower-case ASCII fragment. No character
outside ASCII has a lower-case form made of ASCII letters other than `k` and `i`. -/
def lowerContains (text fragment : String) : Bool :=
  decide (fragment.toList <:+: text.toList.map Char.toLower)

/-- `text.endswith(suffix)`. -/
def endsWith (text suffix : String) : Bool := suffix.toList.isSuffixOf text.toList

/-- The format `08X`: eight upper-case hexadecimal digits, the sign included in the width. -/
def hex08 (n : ℤ) : String :=
  let body := (Nat.toDigits 16 n.natAbs).map Char.toUpper
  let sign := if n < 0 then ['-'] else []
  String.ofList (sign ++ List.replicate (8 - sign.length - body.length) '0' ++ body)

end Python
