import PpssppDfx.Python.Hex
import PpssppDfx.Python.Value

/-!
# JSON texts

`json.loads`, and `json.dumps(document, indent=2)` for a document whose entries are strings and
numbers. Strings are written in ASCII: a character outside the basic plane becomes a surrogate
pair. A lone surrogate is no character here, so a text with one is not read.

What `float` makes of a numeral is a parameter.

## Main definitions

* `Python.jsonLoads` — the parser
* `Python.jsonDumps` — the writer

## Main results

* `Python.jsonLoads_jsonDumps` — a document is read back
-/

set_option autoImplicit false

namespace Python

inductive JsonError where
  /-- `json.JSONDecodeError`. -/
  | decode
  /-- `ValueError`: an integer with too many digits. -/
  | digits

/-! ## Strings -/

/-- Four hexadecimal digits. -/
def hexFour (n : ℕ) : List Char :=
  [hexDigit false (n / 4096 % 16), hexDigit false (n / 256 % 16), hexDigit false (n / 16 % 16),
    hexDigit false (n % 16)]

def unicodeEscape (n : ℕ) : List Char := '\\' :: 'u' :: hexFour n

/-- The letter of a short escape. -/
def shortEscapes : List (Char × Char) :=
  [('"', '"'), ('\\', '\\'), ('n', '\n'), ('r', '\r'), ('t', '\t'), ('f', Char.ofNat 12),
    ('b', Char.ofNat 8)]

/-- A character of a string as it is written. -/
def escapeChar (c : Char) : List Char :=
  match shortEscapes.find? (·.2 == c) with
  | some (letter, _) => ['\\', letter]
  | none =>
    let n := c.toNat
    if 0x20 ≤ n ∧ n ≤ 0x7E then [c]
    else if n < 0x10000 then unicodeEscape n
    else unicodeEscape (0xD800 + (n - 0x10000) / 0x400) ++
      unicodeEscape (0xDC00 + (n - 0x10000) % 0x400)

/-- A string as it is written. -/
def jsonString (s : List Char) : List Char := '"' :: s.flatMap escapeChar ++ ['"']

/-- Four hexadecimal digits and what follows them. -/
def scanHexFour : List Char → Option (ℕ × List Char)
  | a :: b :: c :: d :: rest =>
    if isHexText [a, b, c, d] then some (hexNumber [a, b, c, d], rest) else none
  | _ => none

/-- The character of an escape, after the backslash. -/
def scanEscape : List Char → Option (Char × List Char)
  | 'u' :: rest =>
    match scanHexFour rest with
    | none => none
    | some (n, rest) =>
      if n < 0xD800 ∨ 0xDFFF < n then some (Char.ofNat n, rest)
      else
        match rest with
        | '\\' :: 'u' :: rest =>
          match scanHexFour rest with
          | none => none
          | some (m, rest) =>
            if n < 0xDC00 ∧ 0xDC00 ≤ m ∧ m ≤ 0xDFFF then
              some (Char.ofNat (0x10000 + (n - 0xD800) * 0x400 + (m - 0xDC00)), rest)
            else none
        | _ => none
  | '/' :: rest => some ('/', rest)
  | letter :: rest => (shortEscapes.lookup letter).map fun c => (c, rest)
  | [] => none

/-- The characters up to the quotation mark, and what follows it. The fuel is the length. -/
def scanChars : ℕ → List Char → Option (List Char × List Char)
  | 0, _ => none
  | _, [] => none
  | fuel + 1, c :: rest =>
    if c = '"' then some ([], rest)
    else if c = '\\' then
      match scanEscape rest with
      | none => none
      | some (d, rest) => (scanChars fuel rest).map fun p => (d :: p.1, p.2)
    else if c.toNat < 0x20 then none
    else (scanChars fuel rest).map fun p => (c :: p.1, p.2)

/-- A string after its first quotation mark. -/
def scanString (cs : List Char) : Option (List Char × List Char) := scanChars cs.length cs

/-! ## Numbers -/

/-- Digits at the beginning. -/
def spanDigits (cs : List Char) : List Char × List Char := cs.span Char.isDigit

/-- The digits before the point: no zero is in front of others. -/
def scanWhole : List Char → Option (List Char × List Char)
  | '0' :: rest => some (['0'], rest)
  | cs => if (spanDigits cs).1 = [] then none else some (spanDigits cs)

/-- A mark and digits behind it, if both are there. -/
def scanPart (cs : List Char) (mark : List Char) : List Char × List Char :=
  if (spanDigits cs).1 = [] then ([], mark ++ cs)
  else (mark ++ (spanDigits cs).1, (spanDigits cs).2)

def scanFraction : List Char → List Char × List Char
  | '.' :: rest => scanPart rest ['.']
  | cs => ([], cs)

def scanExponent : List Char → List Char × List Char
  | e :: rest =>
    if e = 'e' ∨ e = 'E' then
      match rest with
      | '-' :: rest => scanPart rest [e, '-']
      | '+' :: rest => scanPart rest [e, '+']
      | _ => scanPart rest [e]
    else ([], e :: rest)
  | [] => ([], [])

/-- A numeral without its sign: the whole part, the rest of the numeral, and what follows. -/
def scanNumeral (cs : List Char) : Option (List Char × List Char × List Char) :=
  (scanWhole cs).map fun whole =>
    let fraction := scanFraction whole.2
    let exponent := scanExponent fraction.2
    (whole.1, fraction.1 ++ exponent.1, exponent.2)

/-- The integer of a numeral. -/
def jsonInt (negative : Bool) (whole : List Char) : Except JsonError ℤ :=
  if maxDecimalDigits < whole.length then .error .digits
  else
    let n : ℤ := Nat.ofDigitChars 10 whole 0
    .ok (if negative then -n else n)

/-! ## Values -/

/-- White space between tokens. -/
def skipBlank (cs : List Char) : List Char :=
  cs.dropWhile fun c => c == ' ' || c == '\t' || c == '\n' || c == '\r'

/-- The words of the grammar. -/
def jsonWords (readFloat : List Char → Value) : List (List Char × Value) :=
  [("null".toList, .none), ("true".toList, .bool true), ("false".toList, .bool false),
    ("NaN".toList, readFloat "NaN".toList), ("Infinity".toList, readFloat "Infinity".toList),
    ("-Infinity".toList, readFloat "-Infinity".toList)]

section Scanner

variable (readFloat : List Char → Value)

/-- A number or a word. -/
def scanAtom (cs : List Char) : Except JsonError (Value × List Char) :=
  match (jsonWords readFloat).find? fun entry => entry.1.isPrefixOf cs with
  | some (word, v) => .ok (v, cs.drop word.length)
  | none =>
    let negative := cs.head? == some '-'
    match scanNumeral (if negative then cs.tail else cs) with
    | none => .error .decode
    | some (whole, [], rest) => (jsonInt negative whole).map fun n => (.int n, rest)
    | some (whole, part, rest) =>
      .ok (readFloat ((if negative then ['-'] else []) ++ whole ++ part), rest)

mutual

/-- A value at the beginning. Each level of nesting and each item takes fuel. -/
def scanValue : ℕ → List Char → Except JsonError (Value × List Char)
  | 0, _ => .error .decode
  | _, [] => .error .decode
  | fuel + 1, c :: rest =>
    if c = '"' then
      match scanString rest with
      | none => .error .decode
      | some (s, rest) => .ok (.str (String.ofList s), rest)
    else if c = '\x7b' then
      match skipBlank rest with
      | '\x7d' :: rest => .ok (.dict [], rest)
      | rest => scanEntries fuel [] rest
    else if c = '[' then
      match skipBlank rest with
      | ']' :: rest => .ok (.list [], rest)
      | rest => scanItems fuel [] rest
    else scanAtom readFloat (c :: rest)

/-- The items of a list up to its end. -/
def scanItems : ℕ → List Value → List Char → Except JsonError (Value × List Char)
  | 0, _, _ => .error .decode
  | fuel + 1, items, cs =>
    match scanValue fuel cs with
    | .error e => .error e
    | .ok (v, rest) =>
      match skipBlank rest with
      | ',' :: rest => scanItems fuel (items ++ [v]) (skipBlank rest)
      | ']' :: rest => .ok (.list (items ++ [v]), rest)
      | _ => .error .decode

/-- The entries of an object up to its end. -/
def scanEntries : ℕ → Dict → List Char → Except JsonError (Value × List Char)
  | 0, _, _ => .error .decode
  | fuel + 1, entries, '"' :: rest =>
    match scanString rest with
    | none => .error .decode
    | some (key, rest) =>
      match skipBlank rest with
      | ':' :: rest =>
        match scanValue fuel (skipBlank rest) with
        | .error e => .error e
        | .ok (v, rest) =>
          let entries := entries.set (String.ofList key) v
          match skipBlank rest with
          | ',' :: rest => scanEntries fuel entries (skipBlank rest)
          | '\x7d' :: rest => .ok (.dict entries, rest)
          | _ => .error .decode
      | _ => .error .decode
  | _, _, _ => .error .decode

end

/-- `json.loads`. -/
def jsonLoads (cs : List Char) : Except JsonError Value :=
  -- a byte order mark is an error
  if cs.head? = some (Char.ofNat 0xFEFF) then .error .decode
  else
    match scanValue readFloat (cs.length + 1) (skipBlank cs) with
    | .error e => .error e
    | .ok (v, rest) => if skipBlank rest = [] then .ok v else .error .decode

end Scanner

/-! ## Writing -/

/-- A number or a string as it is written. -/
inductive JsonScalar where
  | str (s : String)
  | int (n : ℤ)
  /-- A float by its `repr`. -/
  | float (text : List Char)

def JsonScalar.dump : JsonScalar → List Char
  | .str s => jsonString s.toList
  | .int n => (if n < 0 then ['-'] else []) ++ Nat.toDigits 10 n.natAbs
  | .float text => text

def JsonScalar.isNumber : JsonScalar → Bool
  | .str _ => false
  | _ => true

/-- An entry with its indentation. -/
def dumpEntry (entry : String × JsonScalar) : List Char :=
  '\n' :: ' ' :: ' ' :: jsonString entry.1.toList ++ ':' :: ' ' :: entry.2.dump

/-- `json.dumps(document, indent=2)` for an entry and those behind it. -/
def jsonDumps (entry : String × JsonScalar) (entries : List (String × JsonScalar)) : List Char :=
  '\x7b' :: dumpEntry entry ++ entries.flatMap (fun e => ',' :: dumpEntry e) ++ ['\n', '\x7d']

/-! ## Reading strings back -/

section Strings

variable {rest : List Char} {n : ℕ} {c : Char}

theorem scanHexFour_hexFour (h : n < 0x10000) :
    scanHexFour (hexFour n ++ rest) = some (n, rest) := by
  have hdigit {d : ℕ} (hd : d < 16) := hexDigit_spec false hd
  have h3 := hdigit (Nat.mod_lt (n / 4096) (by decide))
  have h2 := hdigit (Nat.mod_lt (n / 256) (by decide))
  have h1 := hdigit (Nat.mod_lt (n / 16) (by decide))
  have h0 := hdigit (Nat.mod_lt n (by decide))
  have htext : isHexText (hexFour n) = true := by
    simp only [isHexText, hexFour, List.all_cons, List.all_nil, h3.1, h2.1, h1.1, h0.1,
      Bool.and_self]
  have hnumber : hexNumber (hexFour n) = n := by
    simp only [hexNumber, hexFour, List.map_cons, List.map_nil, ofDigits, List.foldl_cons,
      List.foldl_nil, h3.2, h2.2, h1.2, h0.2]
    omega
  rw [hexFour] at htext hnumber ⊢
  simp only [List.cons_append, List.nil_append, scanHexFour]
  rw [if_pos htext, hnumber]

/-- A character of the basic plane behind its backslash. -/
theorem scanEscape_basic (hplane : n < 0x10000) (hchar : n < 0xD800 ∨ 0xDFFF < n) :
    scanEscape ('u' :: (hexFour n ++ rest)) = some (Char.ofNat n, rest) := by
  rw [scanEscape, scanHexFour_hexFour hplane]
  simp only
  rw [if_pos hchar]

/-- A surrogate pair behind its backslash. -/
theorem scanEscape_pair (hlow : 0x10000 ≤ n) (hhigh : n < 0x110000) :
    scanEscape ('u' :: (hexFour (0xD800 + (n - 0x10000) / 0x400) ++
      (unicodeEscape (0xDC00 + (n - 0x10000) % 0x400) ++ rest))) = some (Char.ofNat n, rest) := by
  have hsum : 0x10000 + (0xD800 + (n - 0x10000) / 0x400 - 0xD800) * 0x400 +
      (0xDC00 + (n - 0x10000) % 0x400 - 0xDC00) = n := by omega
  rw [scanEscape, scanHexFour_hexFour (by omega)]
  simp only [unicodeEscape, List.cons_append]
  rw [if_neg (by omega), scanHexFour_hexFour (by omega)]
  simp only
  rw [if_pos (by omega), hsum]

theorem scanChars_backslash {d : Char} {after : List Char} (fuel : ℕ)
    (h : scanEscape rest = some (d, after)) : scanChars (fuel + 1) ('\\' :: rest) =
      (scanChars fuel after).map fun p => (d :: p.1, p.2) := by
  rw [scanChars, if_neg (by decide), if_pos rfl, h]

/-- What was written for a character is read as this character. -/
theorem scanChars_escapeChar (fuel : ℕ) : scanChars (fuel + 1) (escapeChar c ++ rest) =
    (scanChars fuel rest).map fun p => (c :: p.1, p.2) := by
  unfold escapeChar
  split
  · rename_i letter d hfind
    obtain rfl : d = c := by simpa using List.find?_some hfind
    have hletter : scanEscape (letter :: rest) = some (d, rest) := by
      have hmem := List.mem_of_find?_eq_some hfind
      simp only [shortEscapes, List.mem_cons, Prod.mk.injEq, List.not_mem_nil, or_false] at hmem
      rcases hmem with ⟨rfl, rfl⟩ | ⟨rfl, rfl⟩ | ⟨rfl, rfl⟩ | ⟨rfl, rfl⟩ | ⟨rfl, rfl⟩ | ⟨rfl, rfl⟩ |
        ⟨rfl, rfl⟩ <;> rfl
    exact scanChars_backslash fuel hletter
  · rename_i hfind
    have hquote : c ≠ '"' := by
      rintro rfl
      exact absurd hfind (by decide)
    have hbackslash : c ≠ '\\' := by
      rintro rfl
      exact absurd hfind (by decide)
    have hvalid : c.toNat < 0xD800 ∨ 0xDFFF < c.toNat ∧ c.toNat < 0x110000 := c.valid
    simp only
    split_ifs with hprint hplane
    · rw [List.singleton_append, scanChars, if_neg hquote, if_neg hbackslash, if_neg (by omega)]
    · have hchar : scanEscape ('u' :: (hexFour c.toNat ++ rest)) =
          some (Char.ofNat c.toNat, rest) := scanEscape_basic hplane (by omega)
      rw [Char.ofNat_toNat] at hchar
      exact scanChars_backslash fuel hchar
    · have hchar : scanEscape ('u' :: (hexFour (0xD800 + (c.toNat - 0x10000) / 0x400) ++
          (unicodeEscape (0xDC00 + (c.toNat - 0x10000) % 0x400) ++ rest))) =
          some (Char.ofNat c.toNat, rest) := scanEscape_pair (by omega) (by omega)
      rw [Char.ofNat_toNat] at hchar
      rw [List.append_assoc]
      exact scanChars_backslash fuel hchar

theorem scanChars_flatMap (s : List Char) {fuel : ℕ} (h : s.length < fuel) :
    scanChars fuel (s.flatMap escapeChar ++ '"' :: rest) = some (s, rest) := by
  induction s generalizing fuel with
  | nil =>
    obtain ⟨fuel, rfl⟩ := Nat.exists_eq_succ_of_ne_zero (by omega : fuel ≠ 0)
    rw [List.flatMap_nil, List.nil_append, scanChars, if_pos rfl]
  | cons c s ih =>
    rw [List.length_cons] at h
    obtain ⟨fuel, rfl⟩ := Nat.exists_eq_succ_of_ne_zero (by omega : fuel ≠ 0)
    rw [List.flatMap_cons, List.append_assoc, scanChars_escapeChar, ih (by omega)]
    rfl

theorem length_le_flatMap_escapeChar (s : List Char) :
    s.length ≤ (s.flatMap escapeChar).length := by
  induction s with
  | nil => exact le_rfl
  | cons c s ih =>
    have hpos : 1 ≤ (escapeChar c).length := by
      unfold escapeChar
      split
      · simp
      · simp only
        split_ifs <;> simp [unicodeEscape]
    rw [List.flatMap_cons, List.length_append, List.length_cons]
    omega

theorem scanString_flatMap (s : List Char) :
    scanString (s.flatMap escapeChar ++ '"' :: rest) = some (s, rest) := by
  apply scanChars_flatMap
  have hlength := length_le_flatMap_escapeChar s
  rw [List.length_append, List.length_cons]
  omega

end Strings

/-! ## Reading numbers back -/

section Numbers

variable {readFloat : List Char → Value} {rest : List Char} {n : ℕ}

/-- What follows a number does not go on with it. -/
def Stops (rest : List Char) : Prop :=
  ∀ c ∈ rest.head?, c.isDigit = false ∧ c ≠ '.' ∧ c ≠ 'e' ∧ c ≠ 'E'

theorem isDigit_toDigits : ∀ c ∈ Nat.toDigits 10 n, c.isDigit = true := fun c hc =>
  Nat.isDigit_of_mem_toDigits (by omega) (by omega) hc

/-- Only zero is written with a zero in front. -/
theorem head_toDigits (hpos : 0 < n) : ∀ tail, Nat.toDigits 10 n ≠ '0' :: tail := by
  induction n using Nat.strong_induction_on with
  | _ n ih =>
    intro tail heq
    rcases Nat.lt_or_ge n 10 with hlt | hge
    · have hall : ∀ m < 10, 0 < m → (Nat.toDigits 10 m).head? ≠ some '0' := by decide
      exact hall n hlt hpos (by rw [heq]; rfl)
    · rw [Nat.toDigits_of_base_le (by decide) hge] at heq
      have hsmaller := ih (n / 10) (by omega) (by omega)
      cases hdigits : Nat.toDigits 10 (n / 10) with
      | nil => exact Nat.toDigits_ne_nil hdigits
      | cons d ds =>
        rw [hdigits, List.cons_append] at heq
        obtain rfl : d = '0' := (List.cons.inj heq).1
        exact hsmaller ds hdigits

theorem spanDigits_append {digits : List Char} (hdigits : ∀ c ∈ digits, c.isDigit = true)
    (hrest : ∀ c ∈ rest.head?, c.isDigit = false) :
    spanDigits (digits ++ rest) = (digits, rest) := by
  obtain ⟨htake, hdrop⟩ := span_append digits rest hdigits hrest
  rw [spanDigits, List.span_eq_takeWhile_dropWhile, htake, hdrop]

theorem scanWhole_toDigits (hrest : ∀ c ∈ rest.head?, c.isDigit = false) :
    scanWhole (Nat.toDigits 10 n ++ rest) = some (Nat.toDigits 10 n, rest) := by
  rcases Nat.eq_zero_or_pos n with rfl | hpos
  · rfl
  · have hspan := spanDigits_append (isDigit_toDigits (n := n)) hrest
    cases hdigits : Nat.toDigits 10 n with
    | nil => exact absurd hdigits Nat.toDigits_ne_nil
    | cons d ds =>
      rw [hdigits] at hspan
      unfold scanWhole
      split
      · rename_i tail heq
        obtain rfl : d = '0' := (List.cons.inj heq).1
        exact absurd hdigits (head_toDigits hpos ds)
      · rw [hspan, if_neg (List.cons_ne_nil d ds)]

/-- No fraction and no exponent follow. -/
theorem scan_of_stops (h : Stops rest) : scanFraction rest = ([], rest) ∧
    scanExponent rest = ([], rest) := by
  cases rest with
  | nil => exact ⟨rfl, rfl⟩
  | cons c rest =>
    obtain ⟨_, hpoint, hlower, hupper⟩ := h c rfl
    constructor
    · unfold scanFraction
      split
      · rename_i heq
        exact absurd (List.cons.inj heq).1 hpoint
      · rfl
    · unfold scanExponent
      simp only
      rw [if_neg (by simp [hlower, hupper])]

theorem scanNumeral_int (h : Stops rest) :
    scanNumeral (Nat.toDigits 10 n ++ rest) = some (Nat.toDigits 10 n, [], rest) := by
  obtain ⟨hfraction, hexponent⟩ := scan_of_stops h
  rw [scanNumeral, scanWhole_toDigits fun c hc => (h c hc).1, Option.map_some]
  simp only [hfraction, hexponent, List.append_nil]

theorem scanNumeral_float {digits : List Char} (hne : digits ≠ [])
    (hdigits : ∀ c ∈ digits, c.isDigit = true) (h : Stops rest) :
    scanNumeral (Nat.toDigits 10 n ++ '.' :: digits ++ rest) =
      some (Nat.toDigits 10 n, '.' :: digits, rest) := by
  obtain ⟨_, hexponent⟩ := scan_of_stops h
  have hspan := spanDigits_append hdigits fun c hc => (h c hc).1
  have hpart : scanFraction ('.' :: (digits ++ rest)) = ('.' :: digits, rest) := by
    rw [scanFraction, scanPart, hspan, if_neg hne]
    rfl
  rw [List.append_assoc, List.cons_append, scanNumeral, scanWhole_toDigits fun c hc => by
    obtain rfl : '.' = c := by simpa using hc
    rfl, Option.map_some]
  simp only [hpart, hexponent, List.append_nil]

/-- No word of the grammar begins with a digit, or with a sign and a digit. -/
theorem no_word {c d : Char} {tail : List Char} (hd : d.isDigit = true)
    (hc : c = d ∨ c = '-' ∧ tail.head? = some d) :
    (jsonWords readFloat).find? (fun entry => entry.1.isPrefixOf (c :: tail)) = none := by
  have hne {letter : Char} (hletter : letter.isDigit = false) : letter ≠ d := by
    rintro rfl
    exact absurd (hd.symm.trans hletter) (by decide)
  rw [List.find?_eq_none]
  intro entry hmem hprefix
  have hprefix' := List.isPrefixOf_iff_prefix.mp hprefix
  have hword : ∃ a b more, entry.1 = a :: b :: more ∧ a.isDigit = false ∧
      (a ≠ '-' ∨ b.isDigit = false) := by
    simp only [jsonWords, List.mem_cons, List.not_mem_nil, or_false] at hmem
    rcases hmem with rfl | rfl | rfl | rfl | rfl | rfl
    · exact ⟨'n', 'u', ['l', 'l'], rfl, rfl, Or.inr rfl⟩
    · exact ⟨'t', 'r', ['u', 'e'], rfl, rfl, Or.inr rfl⟩
    · exact ⟨'f', 'a', ['l', 's', 'e'], rfl, rfl, Or.inr rfl⟩
    · exact ⟨'N', 'a', ['N'], rfl, rfl, Or.inr rfl⟩
    · exact ⟨'I', 'n', ['f', 'i', 'n', 'i', 't', 'y'], rfl, rfl, Or.inr rfl⟩
    · exact ⟨'-', 'I', ['n', 'f', 'i', 'n', 'i', 't', 'y'], rfl, rfl, Or.inr rfl⟩
  obtain ⟨a, b, more, heq, ha, hb⟩ := hword
  rw [heq] at hprefix'
  obtain ⟨rfl, htail⟩ := List.cons_prefix_cons.mp hprefix'
  rcases hc with rfl | ⟨rfl, hhead⟩
  · exact hne ha rfl
  · obtain ⟨tail', rfl⟩ : ∃ tail', tail = d :: tail' := by
      cases tail with
      | nil => exact absurd hhead (by simp)
      | cons e tail' => exact ⟨tail', by rw [Option.some.inj hhead]⟩
    obtain ⟨rfl, _⟩ := List.cons_prefix_cons.mp htail
    rcases hb with hminus | hb
    · exact hminus rfl
    · exact hne hb rfl

end Numbers

/-! ## Reading documents back -/

section Documents

variable {readFloat : List Char → Value} {rest : List Char}

/-- Integers are short enough to be read, and floats have digits around their point. -/
def JsonScalar.Reads : JsonScalar → Prop
  | .str _ => True
  | .int n => (Nat.toDigits 10 n.natAbs).length ≤ maxDecimalDigits
  | .float text => ∃ n digits, text = Nat.toDigits 10 n ++ '.' :: digits ∧ digits ≠ [] ∧
      ∀ c ∈ digits, c.isDigit = true

/-- The value of a number or a string. -/
def JsonScalar.value (readFloat : List Char → Value) : JsonScalar → Value
  | .str s => .str s
  | .int n => .int n
  | .float text => readFloat text

theorem exists_digit_cons (n : ℕ) : ∃ d ds, Nat.toDigits 10 n = d :: ds ∧ d.isDigit = true := by
  cases hdigits : Nat.toDigits 10 n with
  | nil => exact absurd hdigits Nat.toDigits_ne_nil
  | cons d ds => exact ⟨d, ds, rfl, isDigit_toDigits d (hdigits ▸ List.mem_cons_self)⟩

theorem scanAtom_int {n : ℤ} (hreads : (JsonScalar.int n).Reads) (h : Stops rest) :
    scanAtom readFloat ((JsonScalar.int n).dump ++ rest) = .ok (.int n, rest) := by
  obtain ⟨d, ds, hdigits, hd⟩ := exists_digit_cons n.natAbs
  have hscan := scanNumeral_int (n := n.natAbs) h
  have hvalue : Nat.ofDigitChars 10 (d :: ds) 0 = n.natAbs := by
    rw [← hdigits, Nat.ofDigitChars_ten_toDigits]
  have hlength : ¬ maxDecimalDigits < (d :: ds).length := by
    rw [← hdigits]
    exact Nat.not_lt.mpr hreads
  have hdump : (JsonScalar.int n).dump = (if n < 0 then ['-'] else []) ++ (d :: ds) := by
    rw [← hdigits]
    rfl
  rw [hdigits] at hscan
  rw [hdump]
  by_cases hneg : n < 0
  · rw [if_pos hneg, List.append_assoc, List.singleton_append, scanAtom,
      no_word hd (Or.inr ⟨rfl, rfl⟩)]
    simp only [List.head?_cons, beq_self_eq_true, if_true, List.tail_cons, hscan, jsonInt,
      if_neg hlength, hvalue, Except.map]
    rw [show -(n.natAbs : ℤ) = n by omega]
  · have hminus : d ≠ '-' := by
      rintro rfl
      exact absurd hd (by decide)
    have hhead : (some d == some '-') = false := by simpa using hminus
    rw [if_neg hneg, List.nil_append, List.cons_append, scanAtom, no_word hd (Or.inl rfl)]
    rw [List.cons_append] at hscan
    simp only [List.head?_cons, hhead, Bool.false_eq_true, if_false, hscan, jsonInt,
      if_neg hlength, hvalue, Except.map]
    rw [show (n.natAbs : ℤ) = n by omega]

theorem scanAtom_float {text : List Char} (hreads : (JsonScalar.float text).Reads)
    (h : Stops rest) : scanAtom readFloat (text ++ rest) = .ok (readFloat text, rest) := by
  obtain ⟨n, digits, rfl, hne, hall⟩ := hreads
  obtain ⟨d, ds, hdigits, hd⟩ := exists_digit_cons n
  have hscan := scanNumeral_float (n := n) hne hall h
  have hminus : d ≠ '-' := by
    rintro rfl
    exact absurd hd (by decide)
  have hhead : (some d == some '-') = false := by simpa using hminus
  rw [hdigits] at hscan ⊢
  rw [List.cons_append, List.cons_append] at hscan ⊢
  rw [scanAtom, no_word hd (Or.inl rfl)]
  simp only [List.head?_cons, hhead, Bool.false_eq_true, if_false, hscan, List.nil_append,
    List.cons_append]

theorem skipBlank_cons {c : Char} (h : c ≠ ' ' ∧ c ≠ '\t' ∧ c ≠ '\n' ∧ c ≠ '\r') :
    skipBlank (c :: rest) = c :: rest := by
  simp [skipBlank, h]

/-- The first character of a number is a sign or a digit. -/
theorem exists_head_dump {scalar : JsonScalar} (hreads : scalar.Reads) :
    ∃ c tail, scalar.dump = c :: tail ∧
      ((∃ s, scalar = .str s) ∧ c = '"' ∨
        scalar.isNumber = true ∧ (c = '-' ∨ c.isDigit = true)) := by
  cases scalar with
  | str s => exact ⟨'"', _, rfl, Or.inl ⟨⟨s, rfl⟩, rfl⟩⟩
  | int n =>
    obtain ⟨d, ds, hdigits, hd⟩ := exists_digit_cons n.natAbs
    have hdump : (JsonScalar.int n).dump = (if n < 0 then ['-'] else []) ++ (d :: ds) := by
      rw [← hdigits]
      rfl
    rw [hdump]
    split
    · exact ⟨'-', _, rfl, Or.inr ⟨rfl, Or.inl rfl⟩⟩
    · exact ⟨d, ds, rfl, Or.inr ⟨rfl, Or.inr hd⟩⟩
  | float text =>
    obtain ⟨n, digits, rfl, _⟩ := hreads
    obtain ⟨d, ds, hdigits, hd⟩ := exists_digit_cons n
    refine ⟨d, ds ++ '.' :: digits, ?_, Or.inr ⟨rfl, Or.inr hd⟩⟩
    show Nat.toDigits 10 n ++ '.' :: digits = _
    rw [hdigits]
    rfl

/-- A number or a string is read back, at the beginning of any text that does not go on with
it. -/
theorem scanValue_dump {scalar : JsonScalar} (hreads : scalar.Reads) (h : Stops rest) (fuel : ℕ) :
    scanValue readFloat (fuel + 1) (scalar.dump ++ rest) = .ok (scalar.value readFloat, rest) := by
  have hnumber (hscan : scanAtom readFloat (scalar.dump ++ rest) =
      .ok (scalar.value readFloat, rest)) (hnum : scalar.isNumber = true) :
      scanValue readFloat (fuel + 1) (scalar.dump ++ rest) =
        .ok (scalar.value readFloat, rest) := by
    obtain ⟨c, tail, hdump, ⟨⟨s, rfl⟩, _⟩ | ⟨_, hc⟩⟩ := exists_head_dump hreads
    · exact absurd hnum Bool.false_ne_true
    · have hne : c ≠ '"' ∧ c ≠ '\x7b' ∧ c ≠ '[' := by
        refine ⟨?_, ?_, ?_⟩ <;> rintro rfl <;> exact absurd hc (by decide)
      rw [hdump] at hscan ⊢
      rw [List.cons_append] at hscan ⊢
      rw [scanValue, if_neg hne.1, if_neg hne.2.1, if_neg hne.2.2, hscan]
  cases scalar with
  | str s =>
    show scanValue readFloat (fuel + 1) ('"' :: s.toList.flatMap escapeChar ++ ['"'] ++ rest) = _
    rw [List.cons_append, List.cons_append, List.append_assoc, List.singleton_append, scanValue,
      if_pos rfl, scanString_flatMap]
    simp only [String.ofList_toList]
    rfl
  | int n => exact hnumber (scanAtom_int hreads h) rfl
  | float text => exact hnumber (scanAtom_float hreads h) rfl

theorem skipBlank_dump {scalar : JsonScalar} (hreads : scalar.Reads) :
    skipBlank (' ' :: (scalar.dump ++ rest)) = scalar.dump ++ rest := by
  have hblank (cs : List Char) : skipBlank (' ' :: cs) = skipBlank cs := rfl
  obtain ⟨c, tail, hdump, hc⟩ := exists_head_dump hreads
  have hne : c ≠ ' ' ∧ c ≠ '\t' ∧ c ≠ '\n' ∧ c ≠ '\r' := by
    rcases hc with ⟨_, rfl⟩ | ⟨_, hc⟩
    · decide
    · refine ⟨?_, ?_, ?_, ?_⟩ <;> rintro rfl <;> exact absurd hc (by decide)
  rw [hblank, hdump]
  exact skipBlank_cons hne

/-- One entry of an object. -/
theorem scanEntries_entry {entry : String × JsonScalar} (hreads : entry.2.Reads) (h : Stops rest)
    (fuel : ℕ) (before : Dict) :
    scanEntries readFloat (fuel + 2) before
        (jsonString entry.1.toList ++ ':' :: ' ' :: (entry.2.dump ++ rest)) =
      match skipBlank rest with
      | ',' :: rest => scanEntries readFloat (fuel + 1)
          (Dict.set before entry.1 (entry.2.value readFloat)) (skipBlank rest)
      | '\x7d' :: rest => .ok (.dict (Dict.set before entry.1 (entry.2.value readFloat)), rest)
      | _ => .error .decode := by
  show scanEntries readFloat (fuel + 2) before
    ('"' :: entry.1.toList.flatMap escapeChar ++ ['"'] ++ _) = _
  have hcolon : skipBlank (':' :: ' ' :: (entry.2.dump ++ rest)) =
      ':' :: ' ' :: (entry.2.dump ++ rest) := skipBlank_cons (by decide)
  rw [List.cons_append, List.cons_append, List.append_assoc, List.singleton_append, scanEntries,
    scanString_flatMap]
  simp only [hcolon, skipBlank_dump hreads, scanValue_dump hreads h, String.ofList_toList]

/-- The entries as they are stored, one by one. -/
def readEntries (readFloat : List Char → Value) (before : Dict)
    (entries : List (String × JsonScalar)) : Dict :=
  entries.foldl (fun d e => Dict.set d e.1 (e.2.value readFloat)) before

/-- The entries of an object, from the first key to the end. -/
theorem scanEntries_dump (entry : String × JsonScalar) (entries : List (String × JsonScalar))
    (hreads : ∀ e ∈ entry :: entries, e.2.Reads) {fuel : ℕ} (hfuel : entries.length < fuel)
    (before : Dict) :
    scanEntries readFloat (fuel + 1) before (jsonString entry.1.toList ++ ':' :: ' ' ::
        (entry.2.dump ++ (entries.flatMap (fun e => ',' :: dumpEntry e) ++ ['\n', '\x7d']))) =
      .ok (.dict (readEntries readFloat before (entry :: entries)), []) := by
  have hentry := hreads entry List.mem_cons_self
  obtain ⟨fuel, rfl⟩ := Nat.exists_eq_succ_of_ne_zero (by omega : fuel ≠ 0)
  induction entries generalizing entry fuel before with
  | nil =>
    have hstop : Stops ['\n', '\x7d'] := by
      intro c hc
      obtain rfl : '\n' = c := by simpa using hc
      decide
    exact scanEntries_entry hentry hstop fuel before
  | cons next entries ih =>
    rw [List.length_cons] at hfuel
    obtain ⟨fuel, rfl⟩ := Nat.exists_eq_succ_of_ne_zero (by omega : fuel ≠ 0)
    have hnext := ih next (fun e he => hreads e (List.mem_cons_of_mem _ he))
      (Dict.set before entry.1 (entry.2.value readFloat))
      (hreads next (List.mem_cons_of_mem _ List.mem_cons_self)) fuel (by omega)
    rw [List.flatMap_cons, List.cons_append, List.cons_append, List.append_assoc,
      scanEntries_entry hentry]
    · rw [skipBlank_cons (by decide)]
      have hindent : skipBlank (dumpEntry next ++
          (entries.flatMap (fun e => ',' :: dumpEntry e) ++ ['\n', '\x7d'])) =
          jsonString next.1.toList ++ ':' :: ' ' :: (next.2.dump ++
            (entries.flatMap (fun e => ',' :: dumpEntry e) ++ ['\n', '\x7d'])) := by
        show skipBlank ('\n' :: ' ' :: ' ' :: jsonString next.1.toList ++
          ':' :: ' ' :: next.2.dump ++ _) = _
        rw [List.append_assoc]
        rfl
      simp only [hindent]
      exact hnext
    · intro c hc
      obtain rfl : ',' = c := by simpa using hc
      decide

theorem length_le_dumpEntries (entries : List (String × JsonScalar)) :
    entries.length ≤ (entries.flatMap fun e => ',' :: dumpEntry e).length := by
  induction entries with
  | nil => exact le_rfl
  | cons next entries ih =>
    rw [List.flatMap_cons, List.length_append, List.length_cons, List.length_cons]
    omega

/-- A document is read back. -/
theorem jsonLoads_jsonDumps (entry : String × JsonScalar) (entries : List (String × JsonScalar))
    (hreads : ∀ e ∈ entry :: entries, e.2.Reads) :
    jsonLoads readFloat (jsonDumps entry entries) =
      .ok (.dict (readEntries readFloat [] (entry :: entries))) := by
  have hlength := length_le_dumpEntries entries
  have hdump : jsonDumps entry entries = '\x7b' :: '\n' :: ' ' :: ' ' ::
      (jsonString entry.1.toList ++ ':' :: ' ' :: (entry.2.dump ++
        (entries.flatMap (fun e => ',' :: dumpEntry e) ++ ['\n', '\x7d']))) := by
    simp only [jsonDumps, dumpEntry, List.cons_append, List.append_assoc]
  have hfuel : entries.length < (jsonDumps entry entries).length - 1 := by
    rw [hdump]
    simp only [List.length_cons, List.length_append]
    omega
  obtain ⟨fuel, hsucc⟩ : ∃ fuel, (jsonDumps entry entries).length = fuel + 1 :=
    Nat.exists_eq_succ_of_ne_zero (by omega)
  have hlength : entries.length < fuel := by omega
  have hentries : scanEntries readFloat _ _ _ = _ :=
    scanEntries_dump entry entries hreads hlength []
  have hmark (tail : List Char) : ('\x7b' :: tail).head? ≠ some (Char.ofNat 0xFEFF) := by
    rw [List.head?_cons]
    decide
  have hkey (tail : List Char) : skipBlank ('\n' :: ' ' :: ' ' ::
      (jsonString entry.1.toList ++ tail)) = jsonString entry.1.toList ++ tail := by
    show skipBlank ('"' :: (entry.1.toList.flatMap escapeChar ++ ['"'] ++ tail)) = _
    exact skipBlank_cons (by decide)
  have hscan : scanValue readFloat (fuel + 2) (jsonDumps entry entries) =
      .ok (.dict (readEntries readFloat [] (entry :: entries)), []) := by
    rw [hdump, scanValue, if_neg (by decide), if_pos rfl, hkey]
    exact hentries
  have hstart : skipBlank (jsonDumps entry entries) = jsonDumps entry entries := by
    rw [hdump]
    exact skipBlank_cons (by decide)
  rw [jsonLoads, if_neg (hdump ▸ hmark _), hstart, hsucc, hscan]
  rfl

end Documents

end Python
