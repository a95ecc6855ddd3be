import PpssppDfx.Breakpoint.CondFilter
import PpssppDfx.Python.Hex

/-!
# Addresses

Addresses travel as texts: a request gives an address in hexadecimal digits behind `0x`, or
in decimal digits, and a response shows addresses in the first of these forms. In a response
of the emulator they are integers, under keys that only name addresses.

## Main definitions

* `Memory.parseAddress` — the address of an argument
* `Memory.formatAddressFields` — the addresses of a response as texts
* `Memory.locate` — the value at a place of a document, and the key of its field

## Main results

* `parseAddress_formatAddress` — an address is read back from its text
* `locate_formatAddressFields` — what is at a place of the response after that
* `formatted_addresses` — formatting is lossless and idempotent
-/

set_option autoImplicit false

namespace Memory

open Python Breakpoint

/-! ## Parsing -/

/-- An argument that is annotated `str | int`; a Boolean is an integer, too. -/
inductive Scalar where
  | int (n : ℤ)
  | bool (b : Bool)
  | str (s : String)

/-- `_parse_int`, with the message of the `AddrInvalid` that it raises. -/
def parseInt (paramName : String) : Scalar → Except String ℤ
  | .bool _ =>
    .error (paramName ++ " must be a hex string (e.g. '0x08804000') or int; got bool")
  | .int n => .ok n
  | .str value =>
    let s := stripBlank value.toList
    if s = [] then .ok 0
    else if hasHexPrefix s then
      let digits := s.drop 2
      if digits = [] ∨ isHexText digits = false then
        .error (paramName ++ " has invalid hex digits: " ++ strRepr value ++
          " (expected format like '0x08804000')")
      else .ok (hexNumber digits)
    else
      match intDecimal s with
      | none =>
        .error (paramName ++ " is not a valid decimal or hex string: " ++ strRepr value ++
          " (hex values must use '0x' prefix, e.g. '0x08804000')")
      | some n => .ok n

/-- `parse_address`. -/
def parseAddress (address : Scalar) : Except String ℤ := do
  let value ← parseInt "address" address
  if value < 0 ∨ 0xFFFFFFFF < value then
    .error ("address out of the 32-bit range: " ++ toString value ++ " (expected 0..0xFFFFFFFF)")
  else .ok value

/-! ## Formatting -/

/-- `ADDRESS_FIELD_NAMES`. -/
def addressFieldNames : List String :=
  ["pc", "entry", "address", "start", "end", "related_address", "entryPoint", "entryAddr",
   "loadAddress", "load_address"]

/-- `key in ADDRESS_FIELD_NAMES`. -/
def isAddressKey : Value → Bool
  | .str key => addressFieldNames.contains key
  | _ => false

mutual

/-- `format_address_fields`. -/
def formatAddressFields : Value → Value
  | .dict entries => .dict (formatEntries entries)
  | .list items => .list (formatItems items)
  | v => v

/-- The items of a list. -/
def formatItems : List Value → List Value
  | [] => []
  | v :: rest => formatAddressFields v :: formatItems rest

/-- The entries of a dictionary. -/
def formatEntries : List (Value × Value) → List (Value × Value)
  | [] => []
  -- a Boolean is no `.int`, so it is left to the recursion, which leaves it alone
  | (key, .int n) :: rest =>
    (key, if isAddressKey key then .str (formatAddress n) else .int n) :: formatEntries rest
  | (key, v) :: rest => (key, formatAddressFields v) :: formatEntries rest

end

/-! ## Places in a document -/

/-- A value, and its key if it is a field of a dictionary. -/
abbrev Field := Option Value × Value

/-- The value at a position of a list or a dictionary. -/
def child : Value → ℕ → Option Field
  | .list items, i => items[i]?.map fun v => (none, v)
  | .dict entries, i => entries[i]?.map fun entry => (some entry.1, entry.2)
  | _, _ => none

/-- The field at a place of a document, given by the positions on the way to it. -/
def locate : Field → List ℕ → Option Field
  | field, [] => some field
  | field, i :: place => (child field.2 i).bind fun field => locate field place

/-- What a value is, apart from its content. -/
inductive Kind where
  | scalar
  | list (length : ℕ)
  | dict (keys : List Value)

def kindOf : Value → Kind
  | .list items => .list items.length
  | .dict entries => .dict (entries.map Prod.fst)
  | _ => .scalar

/-- An integer under a key that names an address. -/
def IsAddressInt (field : Field) : Prop :=
  ∃ key n, field = (some key, .int n) ∧ isAddressKey key = true

/-- A document with the integers of its address fields as texts, and nothing else changed. -/
structure Normalized (data out : Value) : Prop where
  shape : ∀ place,
    (locate (none, out) place).map (fun field => (field.1, kindOf field.2)) =
      (locate (none, data) place).map fun field => (field.1, kindOf field.2)
  formatted : ∀ place key n, locate (none, data) place = some (some key, .int n) →
    isAddressKey key = true →
      locate (none, out) place = some (some key, .str (formatAddress n))
  unchanged : ∀ place field, locate (none, data) place = some field →
    field.2.isContainer = false → ¬ IsAddressInt field → locate (none, out) place = some field

/-! ## An address is read back -/

theorem toList_hex08 {v : ℤ} (hv : 0 ≤ v) :
    (hex08 v).toList = List.replicate (8 - ((Nat.toDigits 16 v.toNat).map Char.toUpper).length)
      '0' ++ (Nat.toDigits 16 v.toNat).map Char.toUpper := by
  have hnat : v.natAbs = v.toNat := by omega
  simp only [hex08, if_neg (Int.not_lt.mpr hv), hnat, List.length_nil, Nat.sub_zero, List.nil_append,
    String.toList_ofList]

theorem hex08_spec {v : ℤ} (hv : 0 ≤ v) :
    (hex08 v).toList ≠ [] ∧ isHexText (hex08 v).toList = true ∧
      (hexNumber (hex08 v).toList : ℤ) = v := by
  obtain ⟨hhex, hvalue⟩ := hexNumber_toDigits v.toNat
  rw [toList_hex08 hv]
  refine ⟨?_, ?_, ?_⟩
  · simp
  · rw [isHexText, List.all_append, Bool.and_eq_true]
    refine ⟨List.all_eq_true.mpr fun c hc => ?_, hhex⟩
    rw [List.eq_of_mem_replicate hc]
    decide
  · rw [hexNumber_replicate_append, hvalue]
    exact Int.toNat_of_nonneg hv

/-- The text of an address is one of the texts that are parsed, and denotes the address. -/
theorem parseAddress_formatAddress {v : ℤ} (hv : 0 ≤ v) (hlt : v < 2 ^ 32) :
    parseAddress (.str (formatAddress v)) = .ok v := by
  obtain ⟨hne, hhex, hvalue⟩ := hex08_spec hv
  have hmod : v % 2 ^ 32 = v := Int.emod_eq_of_lt hv hlt
  have htext : (formatAddress v).toList = '0' :: 'x' :: (hex08 v).toList := by
    rw [formatAddress, hmod, String.toList_append]
    rfl
  have hblank : ∀ c ∈ (formatAddress v).toList, isBlank c = false := by
    rw [htext]
    simp only [List.forall_mem_cons]
    exact ⟨by decide, by decide, fun c hc =>
      isBlank_of_isHexDigit (List.all_eq_true.mp hhex c hc)⟩
  have hparse : parseInt "address" (.str (formatAddress v)) = .ok v := by
    have hprefix : hasHexPrefix ('0' :: 'x' :: (hex08 v).toList) = true := rfl
    have hdrop : ('0' :: 'x' :: (hex08 v).toList).drop 2 = (hex08 v).toList := rfl
    have hstrip : stripBlank (formatAddress v).toList = '0' :: 'x' :: (hex08 v).toList := by
      rw [stripBlank_eq_self hblank, htext]
    simp only [parseInt, hstrip, hprefix, hdrop, hne, hhex, hvalue, reduceCtorEq, or_self,
      if_false, if_true]
  have hrange : ¬ (v < 0 ∨ 0xFFFFFFFF < v) := by omega
  rw [parseAddress, hparse]
  exact if_neg hrange

/-! ## Fields -/

/-- The value of a field after formatting. -/
def formatField (key : Value) : Value → Value
  | .int n => if isAddressKey key then .str (formatAddress n) else .int n
  | v => formatAddressFields v

/-- A field after formatting; an item of a list has no key. -/
def formatted : Field → Field
  | (some key, v) => (some key, formatField key v)
  | (none, v) => (none, formatAddressFields v)

theorem formatItems_eq_map (items : List Value) :
    formatItems items = items.map formatAddressFields := by
  induction items with
  | nil => rfl
  | cons v rest ih => rw [formatItems, ih, List.map_cons]

theorem formatEntries_eq_map (entries : List (Value × Value)) :
    formatEntries entries = entries.map fun entry => (entry.1, formatField entry.1 entry.2) := by
  induction entries with
  | nil => rfl
  | cons entry rest ih =>
    obtain ⟨key, v⟩ := entry
    rw [List.map_cons, ← ih]
    cases v <;> rfl

/-- Formatting a field leaves a value of the same kind. -/
theorem kindOf_formatAddressFields (v : Value) : kindOf (formatAddressFields v) = kindOf v := by
  cases v with
  | list items => rw [formatAddressFields, kindOf, formatItems_eq_map, List.length_map, kindOf]
  | dict entries =>
    rw [formatAddressFields, kindOf, formatEntries_eq_map, List.map_map, kindOf]
    rfl
  | _ => rfl

theorem kindOf_formatField (key v : Value) : kindOf (formatField key v) = kindOf v := by
  cases v with
  | int n =>
    rw [formatField]
    split <;> rfl
  | _ => exact kindOf_formatAddressFields _

/-! ## Formatting twice -/

mutual

theorem formatAddressFields_idem :
    ∀ v : Value, formatAddressFields (formatAddressFields v) = formatAddressFields v
  | .dict entries => congrArg Value.dict (formatEntries_idem entries)
  | .list items => congrArg Value.list (formatItems_idem items)
  | .none | .bool _ | .int _ | .float _ _ | .str _ | .other _ _ => rfl

theorem formatItems_idem :
    ∀ items : List Value, formatItems (formatItems items) = formatItems items
  | [] => rfl
  | v :: rest => congrArg₂ List.cons (formatAddressFields_idem v) (formatItems_idem rest)

theorem formatField_idem (key : Value) :
    ∀ v : Value, formatField key (formatField key v) = formatField key v
  -- the text of an address is no integer
  | .int n => by
    rw [formatField]
    split
    · rfl
    · rename_i hkey
      rw [formatField, if_neg hkey]
  | .dict entries => congrArg Value.dict (formatEntries_idem entries)
  | .list items => congrArg Value.list (formatItems_idem items)
  | .none | .bool _ | .float _ _ | .str _ | .other _ _ => rfl

theorem formatEntries_idem :
    ∀ entries : List (Value × Value), formatEntries (formatEntries entries) = formatEntries entries
  | [] => rfl
  | (key, v) :: rest => by
    rw [formatEntries_eq_map ((key, v) :: rest), List.map_cons, ← formatEntries_eq_map rest,
      formatEntries_eq_map, List.map_cons, ← formatEntries_eq_map, formatField_idem key v,
      formatEntries_idem rest]

end

/-! ## Places -/

theorem child_formatted (field : Field) (i : ℕ) :
    child (formatted field).2 i = (child field.2 i).map formatted := by
  have hdeep (v : Value) : child (formatAddressFields v) i = (child v i).map formatted := by
    cases v with
    | list items =>
      rw [formatAddressFields, child, child, formatItems_eq_map, List.getElem?_map, Option.map_map,
        Option.map_map]
      rfl
    | dict entries =>
      rw [formatAddressFields, child, child, formatEntries_eq_map, List.getElem?_map,
        Option.map_map, Option.map_map]
      rfl
    | _ => rfl
  obtain ⟨_ | key, v⟩ := field
  · exact hdeep v
  · cases v with
    | int n =>
      rw [formatted, formatField]
      split <;> rfl
    | _ => exact hdeep _

/-- At a place of the formatted document is the formatted field of the document. -/
theorem locate_formatAddressFields (field : Field) (place : List ℕ) :
    locate (formatted field) place = (locate field place).map formatted := by
  induction place generalizing field with
  | nil => rfl
  | cons i place ih =>
    rw [locate, locate, child_formatted, Option.bind_map, Option.map_bind]
    exact congrArg _ (funext ih)

theorem normalized_formatAddressFields (data : Value) :
    Normalized data (formatAddressFields data) := by
  have hlocate (place : List ℕ) : locate (none, formatAddressFields data) place =
      (locate (none, data) place).map formatted := locate_formatAddressFields (none, data) place
  constructor
  case shape =>
    intro place
    rw [hlocate, Option.map_map]
    congr 1
    funext field
    obtain ⟨_ | key, v⟩ := field
    · exact congrArg _ (kindOf_formatAddressFields v)
    · exact congrArg _ (kindOf_formatField key v)
  case formatted =>
    intro place key n hfield hkey
    rw [hlocate, hfield, Option.map_some, formatted, formatField, if_pos hkey]
  case unchanged =>
    intro place field hfield hscalar hnot
    rw [hlocate, hfield, Option.map_some]
    congr 1
    obtain ⟨_ | key, v⟩ := field
    · cases v with
      | list | dict => cases hscalar
      | _ => rfl
    · cases v with
      | list | dict => cases hscalar
      | int n =>
        have hkey : ¬ isAddressKey key = true := fun hkey => hnot ⟨key, n, rfl, hkey⟩
        rw [formatted, formatField, if_neg hkey]
      | _ => rfl

/-- An address is read back from its text; formatting a document twice is formatting it once,
and changes the integers of its address fields only. -/
theorem formatted_addresses (v : ℤ) (hv : 0 ≤ v) (hlt : v < 2 ^ 32) (data : Value) :
    parseAddress (.str (formatAddress v)) = .ok v ∧
      formatAddressFields (formatAddressFields data) = formatAddressFields data ∧
      Normalized data (formatAddressFields data) :=
  ⟨parseAddress_formatAddress hv hlt, formatAddressFields_idem data,
    normalized_formatAddressFields data⟩

/-- A thread and its program counter. -/
def threads : Value :=
  .list [.dict [(.str "name", .str "user_main"), (.str "pc", .int 143585524),
    (.str "isCurrent", .bool true), (.str "size", .int 824)]]

theorem formatted_addresses_threads :
    parseAddress (.str (formatAddress 0x08804000)) = .ok 0x08804000 ∧
      formatAddressFields (formatAddressFields threads) = formatAddressFields threads ∧
      Normalized threads (formatAddressFields threads) :=
  formatted_addresses 0x08804000 (by decide) (by decide) threads

end Memory
