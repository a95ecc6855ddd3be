import Mathlib.Data.List.DropRight
import Mathlib.Data.List.Infix
import Mathlib.Data.List.TakeWhile
import PpssppDfx.Python.Integer

/-!
# Texts

Methods of `str`, on the characters of a text: lines, words between blanks, the part after the
last separator, and the conversion of decimal digits.

## Main definitions

* `Python.splitLines`, `Python.splitBlank` — `str.splitlines()` and `str.split()`
* `Python.stripBlank` — `str.strip()`
* `Python.rpartition` — the parts before and after the last separator
* `Python.intDecimal` — `int(text)`

## Main results

* `Python.splitBlank_append_cons`, `Python.exists_of_splitBlank_eq_cons` — words and the gaps
  between them
* `Python.infix_iff_exists_word` — a text without blanks occurs in a word or not at all
* `Python.intDecimal_toDigits` — the numeral of a number is read back
-/

set_option autoImplicit false

namespace Python

/-- White space, for `str.split()` and for `\s` in a pattern. -/
def isBlank (c : Char) : Bool :=
  isSpace c || (0x1c ≤ c.toNat && c.toNat ≤ 0x1f) || isUnicodeSpace c.toNat

/-- The characters that end a line. -/
def isLineBreak (c : Char) : Bool :=
  (0x0a ≤ c.toNat && c.toNat ≤ 0x0d) || (0x1c ≤ c.toNat && c.toNat ≤ 0x1e) ||
    c.toNat == 0x85 || c.toNat == 0x2028 || c.toNat == 0x2029

/-- `str.splitlines()`. A break at the end of the text opens no further line. -/
def splitLines : List Char → List (List Char)
  | [] => []
  | '\r' :: '\n' :: rest => [] :: splitLines rest
  | c :: rest =>
    if isLineBreak c then [] :: splitLines rest
    else match splitLines rest with
      | [] => [[c]]
      | line :: lines => (c :: line) :: lines

/-- `str.split()`. -/
def splitBlank (cs : List Char) : List (List Char) :=
  (cs.splitOnP isBlank).filter (!·.isEmpty)

/-- `str.strip()`. -/
def stripBlank (cs : List Char) : List Char :=
  ((cs.dropWhile isBlank).reverse.dropWhile isBlank).reverse

/-- `str.rpartition(sep)`; `none` where there is no separator. -/
def rpartition (sep : Char) (cs : List Char) : Option (List Char × List Char) :=
  match cs.reverse.dropWhile (· ≠ sep) with
  | [] => none
  | _ :: before => some (before.reverse, (cs.reverse.takeWhile (· ≠ sep)).reverse)

/-- `\d` in a pattern. -/
def isDecimal (c : Char) : Bool := c.isDigit || (unicodeDecimal c.toNat).isSome

/-- Code points of the digits that are no decimal digits, such as superscripts. -/
def otherDigits : List (ℕ × ℕ) :=
  [(0xb2, 0xb3), (0xb9, 0xb9), (0x1369, 0x1371), (0x19da, 0x19da), (0x2070, 0x2070),
   (0x2074, 0x2079), (0x2080, 0x2089), (0x2460, 0x2468), (0x2474, 0x247c), (0x2488, 0x2490),
   (0x24ea, 0x24ea), (0x24f5, 0x24fd), (0x24ff, 0x24ff), (0x2776, 0x277e), (0x2780, 0x2788),
   (0x278a, 0x2792), (0x10a40, 0x10a43), (0x10e60, 0x10e68), (0x11052, 0x1105a),
   (0x1f100, 0x1f10a)]

/-- `str.isdigit()`. -/
def isDigitText (cs : List Char) : Bool :=
  !cs.isEmpty && cs.all fun c =>
    isDecimal c || otherDigits.any fun range => range.1 ≤ c.toNat && c.toNat ≤ range.2

/-- Decimal digits without a sign. -/
def unsignedDecimal (cs : List Char) : Option ℕ :=
  (digits 10 cs).bind fun ds =>
    if maxDecimalDigits < ds.length then none else some (ofDigits 10 ds)

/-- `int(text)`; `none` models `ValueError`. -/
def intDecimal (cs : List Char) : Option ℤ :=
  match strip (cs.map toAscii) with
  | '-' :: rest => (unsignedDecimal rest).map fun n : ℕ => -(n : ℤ)
  | '+' :: rest => (unsignedDecimal rest).map fun n : ℕ => (n : ℤ)
  | cs => (unsignedDecimal cs).map fun n : ℕ => (n : ℤ)

example : splitLines "a\r\n\nb c\n".toList = ["a".toList, [], "b c".toList] := by decide
example : splitBlank " a\t b ".toList = ["a".toList, "b".toList] := by decide
example : intDecimal " +01_0".toList = some 10 := by decide

section Words

variable {b : Char} {cs gap needle rest text text' w : List Char} {ws : List (List Char)}

@[simp] theorem splitBlank_nil : splitBlank [] = [] := rfl

/-- A blank parts the words before it from those after it. -/
theorem splitBlank_append_cons (text rest : List Char) (hb : isBlank b = true) :
    splitBlank (text ++ b :: rest) = splitBlank text ++ splitBlank rest := by
  rw [splitBlank, List.splitOnP_append_cons _ _ hb, List.filter_append]
  rfl

theorem splitBlank_gap (h : ∀ c ∈ gap, isBlank c = true) :
    splitBlank (gap ++ rest) = splitBlank rest := by
  induction gap with
  | nil => rfl
  | cons c gap ih =>
    have hc := h c List.mem_cons_self
    calc splitBlank (c :: (gap ++ rest))
        = splitBlank [] ++ splitBlank (gap ++ rest) := splitBlank_append_cons [] _ hc
      _ = splitBlank rest := ih fun c' hc' => h c' (List.mem_cons_of_mem _ hc')

theorem splitBlank_word (hne : w ≠ []) (h : ∀ c ∈ w, isBlank c = false) : splitBlank w = [w] := by
  rw [splitBlank, List.splitOnP_eq_singleton h]
  simp [hne]

/-- Between two texts that a blank parts, what has no blank is in one of them. -/
theorem infix_append_cons_iff (hb : b ∉ needle) :
    needle <:+: text ++ b :: rest ↔ needle <:+: text ∨ needle <:+: rest := by
  constructor
  · rintro ⟨front, back, heq⟩
    rw [List.append_assoc, List.append_eq_append_iff] at heq
    rcases heq with ⟨t, htext, hback⟩ | ⟨t, hfront, hrest⟩
    · -- the front ends within the text, and so does the needle
      rw [List.append_eq_append_iff] at hback
      rcases hback with ⟨u, rfl, -⟩ | ⟨u, hneedle, hcons⟩
      · exact .inl ⟨front, u, by rw [htext, List.append_assoc]⟩
      · cases u with
        | nil => exact .inl ⟨front, [], by rw [htext, hneedle]; simp⟩
        | cons c u =>
          cases hcons
          exact absurd (hneedle ▸ List.mem_append_right _ List.mem_cons_self) hb
    · cases t with
      | nil =>
        cases needle with
        | nil => exact .inl List.nil_infix
        | cons c needle =>
          cases hrest
          exact absurd List.mem_cons_self hb
      | cons c t =>
        rw [List.cons_append, List.cons.injEq] at hrest
        exact .inr ⟨t, back, by rw [List.append_assoc, hrest.2]⟩
  · rintro (⟨front, back, rfl⟩ | ⟨front, back, rfl⟩)
    · exact ⟨front, back ++ b :: rest, by simp⟩
    · exact ⟨text ++ b :: front, back, by simp⟩

theorem exists_span (p : Char → Bool) (cs : List Char) :
    ∃ front back, cs = front ++ back ∧ (∀ c ∈ front, p c = true) ∧
      ∀ c ∈ back.head?, p c = false := by
  refine ⟨cs.takeWhile p, cs.dropWhile p, List.takeWhile_append_dropWhile.symm,
    fun c hc => List.mem_takeWhile_imp hc, fun c hc => ?_⟩
  have hhead := List.head?_dropWhile_not p cs
  rw [hc] at hhead
  simpa using hhead

/-- A word ends at a blank. -/
theorem splitBlank_word_append (hne : w ≠ []) (hw : ∀ c ∈ w, isBlank c = false)
    (hrest : ∀ c ∈ rest.head?, isBlank c = true) :
    splitBlank (w ++ rest) = w :: splitBlank rest := by
  cases rest with
  | nil => rw [List.append_nil, splitBlank_word hne hw, splitBlank_nil]
  | cons b rest =>
    have hb := hrest b rfl
    have hgapless : splitBlank (b :: rest) = splitBlank rest := splitBlank_append_cons [] rest hb
    rw [splitBlank_append_cons _ _ hb, splitBlank_word hne hw, hgapless, List.singleton_append]

/-- A text that is empty once it is stripped has only blanks. -/
theorem isBlank_of_stripBlank {cs : List Char} (h : stripBlank cs = []) : ∀ c ∈ cs, isBlank c := by
  have hrest : ∀ c ∈ cs.dropWhile isBlank, isBlank c := by
    intro c hc
    exact List.dropWhile_eq_nil_iff.mp (List.reverse_eq_nil_iff.mp h) c (List.mem_reverse.mpr hc)
  intro c hc
  rw [← List.takeWhile_append_dropWhile (p := isBlank) (l := cs), List.mem_append] at hc
  rcases hc with hfirst | hlast
  · exact List.mem_takeWhile_imp hfirst
  · exact hrest c hlast

/-- A text without blanks is stripped of nothing. -/
theorem stripBlank_eq_self (h : ∀ c ∈ cs, isBlank c = false) : stripBlank cs = cs := by
  have hdrop (ds : List Char) (hds : ∀ c ∈ ds, isBlank c = false) :
      ds.dropWhile isBlank = ds := by
    cases ds with
    | nil => rfl
    | cons c ds => rw [List.dropWhile_cons_of_neg (by simp [hds c List.mem_cons_self])]
  rw [stripBlank, hdrop cs h, hdrop cs.reverse fun c hc => h c (List.mem_reverse.mp hc),
    List.reverse_reverse]

/-- A text that is stripped begins and ends with no blank, so that nothing is left to strip. -/
theorem stripBlank_stripBlank (cs : List Char) : stripBlank (stripBlank cs) = stripBlank cs := by
  have hhead : (stripBlank cs).dropWhile isBlank = stripBlank cs := by
    -- what is left of the end has the beginning of what was left of the front
    have hprefix : stripBlank cs <+: cs.dropWhile isBlank := by
      rw [← List.reverse_suffix, stripBlank, List.reverse_reverse]
      exact List.dropWhile_suffix isBlank
    obtain ⟨tail, htail⟩ := hprefix
    generalize hfront : stripBlank cs = front at htail
    cases front with
    | nil => rfl
    | cons c front =>
      have hc := List.head?_dropWhile_not isBlank cs
      rw [← htail] at hc
      exact List.dropWhile_cons_of_neg (by simpa using hc)
  have hend : (stripBlank cs).reverse.dropWhile isBlank = (stripBlank cs).reverse := by
    rw [stripBlank, List.reverse_reverse, List.dropWhile_idempotent]
  rw [stripBlank, hhead, hend, List.reverse_reverse]

/-- A text is blank, or begins with a gap and a word. -/
theorem exists_gap_word (cs : List Char) :
    (∀ c ∈ cs, isBlank c = true) ∨
      ∃ gap w rest, cs = gap ++ (w ++ rest) ∧ (∀ c ∈ gap, isBlank c = true) ∧ w ≠ [] ∧
        (∀ c ∈ w, isBlank c = false) ∧ ∀ c ∈ rest.head?, isBlank c = true := by
  obtain ⟨gap, body, rfl, hgap, hbody⟩ := exists_span isBlank cs
  cases body with
  | nil => exact .inl (by simpa using hgap)
  | cons c body =>
    right
    obtain ⟨w, rest, hsplit, hw, hrest⟩ := exists_span (!isBlank ·) (c :: body)
    refine ⟨gap, w, rest, by rw [hsplit], hgap, ?_, fun c hc => by simpa using hw c hc,
      fun c hc => by simpa using hrest c hc⟩
    -- the body does not begin with a blank, so its first span is not empty
    rintro rfl
    rw [List.nil_append] at hsplit
    have hblank : isBlank c = true := by simpa using hrest c (by rw [← hsplit]; rfl)
    rw [hbody c rfl] at hblank
    cases hblank

/-- A text without words is blank. -/
theorem isBlank_of_splitBlank_eq_nil (h : splitBlank cs = []) : ∀ c ∈ cs, isBlank c = true := by
  rcases exists_gap_word cs with hblank | ⟨gap, w, rest, rfl, hgap, hne, hw, hrest⟩
  · exact hblank
  · rw [splitBlank_gap hgap, splitBlank_word_append hne hw hrest] at h
    cases h

/-- The first word of a text, with the gap before it and with what follows it. -/
theorem exists_of_splitBlank_eq_cons (h : splitBlank cs = w :: ws) :
    ∃ gap rest, cs = gap ++ (w ++ rest) ∧ (∀ c ∈ gap, isBlank c = true) ∧ w ≠ [] ∧
      (∀ c ∈ w, isBlank c = false) ∧ splitBlank rest = ws ∧
      ∀ c ∈ rest.head?, isBlank c = true := by
  rcases exists_gap_word cs with hblank | ⟨gap, word, rest, rfl, hgap, hne, hword, hrest⟩
  · have hnil := (splitBlank_gap hblank : splitBlank (cs ++ []) = splitBlank [])
    rw [List.append_nil, h] at hnil
    cases hnil
  · rw [splitBlank_gap hgap, splitBlank_word_append hne hword hrest, List.cons.injEq] at h
    obtain ⟨rfl, rfl⟩ := h
    exact ⟨gap, rest, rfl, hgap, hne, hword, rfl, hrest⟩

/-- What begins with a blank has a gap before its first word. -/
theorem gap_ne_nil (hne : w ≠ []) (hw : ∀ c ∈ w, isBlank c = false)
    (h : ∀ c ∈ (gap ++ (w ++ rest)).head?, isBlank c = true) : gap ≠ [] := by
  rintro rfl
  obtain ⟨c, w, rfl⟩ := List.exists_cons_of_ne_nil hne
  have hblank := h c rfl
  rw [hw c List.mem_cons_self] at hblank
  cases hblank

/-- A text can be parted between any two of its words. -/
theorem exists_of_splitBlank_eq_append {front back : List (List Char)}
    (h : splitBlank cs = front ++ back) :
    ∃ text rest, cs = text ++ rest ∧ splitBlank rest = back := by
  induction front generalizing cs with
  | nil => exact ⟨[], cs, rfl, h⟩
  | cons w front ih =>
    obtain ⟨gap, rest, rfl, -, -, -, hrest, -⟩ := exists_of_splitBlank_eq_cons h
    obtain ⟨text, rest', rfl, hback⟩ := ih hrest
    exact ⟨gap ++ (w ++ text), rest', by simp, hback⟩

/-- The first word of a text that begins with `w` begins with it too. -/
theorem exists_splitBlank_word_append (hne : w ≠ []) (hw : ∀ c ∈ w, isBlank c = false)
    (rest : List Char) : ∃ v ws, splitBlank (w ++ rest) = v :: ws ∧ w <+: v := by
  obtain ⟨front, back, rfl, hfront, hback⟩ := exists_span (!isBlank ·) rest
  refine ⟨w ++ front, splitBlank back, ?_, List.prefix_append w front⟩
  rw [← List.append_assoc]
  apply splitBlank_word_append
  · simp [hne]
  · intro c hc
    rcases List.mem_append.mp hc with hc | hc
    · exact hw c hc
    · simpa using hfront c hc
  · intro c hc
    simpa using hback c hc

/-- The last word of a text that ends with `w` ends with it too. -/
theorem exists_splitBlank_append_word (hne : w ≠ []) (hw : ∀ c ∈ w, isBlank c = false)
    (text : List Char) : ∃ ws v, splitBlank (text ++ w) = ws ++ [v] ∧ w <:+ v := by
  induction text using List.reverseRecOn generalizing w with
  | nil => exact ⟨[], w, splitBlank_word hne hw, List.suffix_refl w⟩
  | append_singleton text c ih =>
    -- from the back, so that the word grows at its front
    rw [List.append_assoc, List.singleton_append]
    cases hc : isBlank c with
    | true => exact ⟨_, w, by rw [splitBlank_append_cons _ _ hc, splitBlank_word hne hw],
        List.suffix_refl w⟩
    | false =>
      -- the character belongs to the word
      obtain ⟨ws, v, hws, hv⟩ := ih (List.cons_ne_nil c w) fun d hd => by
        rcases List.mem_cons.mp hd with rfl | hd
        · exact hc
        · exact hw d hd
      exact ⟨ws, v, hws, (List.suffix_cons c w).trans hv⟩

section Needle

variable (hne : needle ≠ []) (hneedle : ∀ c ∈ needle, isBlank c = false)

include hneedle

theorem notMem_of_isBlank (hb : isBlank b = true) : b ∉ needle := by
  intro hmem
  rw [hneedle b hmem] at hb
  cases hb

include hne

theorem infix_append_iff (hrest : ∀ c ∈ rest.head?, isBlank c = true) :
    needle <:+: text ++ rest ↔ needle <:+: text ∨ needle <:+: rest := by
  have hnil : ¬ needle <:+: [] := fun h => hne (List.infix_nil.mp h)
  cases rest with
  | nil => rw [List.append_nil, or_iff_left hnil]
  | cons b rest =>
    have hb := notMem_of_isBlank hneedle (hrest b rfl)
    have hcons : needle <:+: b :: rest ↔ needle <:+: rest := by
      rw [← List.nil_append (b :: rest), infix_append_cons_iff hb, or_iff_right hnil]
    rw [infix_append_cons_iff hb, hcons]

theorem infix_gap_append_iff (hgap : ∀ c ∈ gap, isBlank c = true) :
    needle <:+: gap ++ text ↔ needle <:+: text := by
  have hnil : ¬ needle <:+: [] := fun h => hne (List.infix_nil.mp h)
  induction gap with
  | nil => rfl
  | cons b gap ih =>
    have hb := notMem_of_isBlank hneedle (hgap b List.mem_cons_self)
    rw [List.cons_append, ← List.nil_append (b :: (gap ++ text)), infix_append_cons_iff hb,
      or_iff_right hnil]
    exact ih fun c hc => hgap c (List.mem_cons_of_mem _ hc)

/-- What has no blank occurs in a text if it occurs in one of its words. -/
theorem infix_iff_exists_word :
    needle <:+: cs ↔ ∃ w ∈ splitBlank cs, needle <:+: w := by
  generalize hws : splitBlank cs = ws
  induction ws generalizing cs with
  | nil =>
    have hblank := isBlank_of_splitBlank_eq_nil hws
    constructor
    · intro h
      obtain ⟨c, hc⟩ := List.exists_mem_of_ne_nil needle hne
      exact absurd hc (notMem_of_isBlank hneedle (hblank c (h.subset hc)))
    · rintro ⟨w, hw, -⟩
      cases hw
  | cons w ws ih =>
    -- behind the gap, in the first word, or in what follows it
    obtain ⟨gap, rest, rfl, hgap, -, -, hrest, hhead⟩ := exists_of_splitBlank_eq_cons hws
    rw [infix_gap_append_iff hne hneedle hgap, infix_append_iff hne hneedle hhead, ih hrest]
    simp

end Needle

end Words

section Lines

theorem splitLines_cons {c : Char} {rest : List Char} (hc : isLineBreak c = false) :
    splitLines (c :: rest) = match splitLines rest with
      | [] => [[c]]
      | line :: lines => (c :: line) :: lines := by
  rw [splitLines.eq_3]
  · rw [hc]
    rfl
  · rintro rest' rfl
    cases hc

/-- No line has a break in it. -/
theorem isLineBreak_of_mem_splitLines {text line : List Char} (h : line ∈ splitLines text) :
    ∀ c ∈ line, isLineBreak c = false := by
  fun_induction splitLines text generalizing line with
  | case1 => cases h
  | case2 rest ih =>
    rcases List.mem_cons.mp h with rfl | h
    · exact fun c hc => absurd hc List.not_mem_nil
    · exact ih h
  | case3 c rest _ hc ih =>
    rcases List.mem_cons.mp h with rfl | h
    · exact fun c hc => absurd hc List.not_mem_nil
    · exact ih h
  | case4 c rest _ hc hrest ih =>
    rw [List.mem_singleton.mp h]
    intro d hd
    rw [List.mem_singleton.mp hd]
    simpa using hc
  | case5 c rest _ hc first lines hrest ih =>
    rw [hrest] at ih
    rcases List.mem_cons.mp h with rfl | h
    · intro d hd
      rcases List.mem_cons.mp hd with rfl | hd
      · simpa using hc
      · exact ih List.mem_cons_self d hd
    · exact ih (List.mem_cons_of_mem _ h)

/-- A line is its own only line. -/
theorem splitLines_line {line : List Char} (hne : line ≠ [])
    (h : ∀ c ∈ line, isLineBreak c = false) : splitLines line = [line] := by
  induction line with
  | nil => exact absurd rfl hne
  | cons c rest ih =>
    rw [splitLines_cons (h c List.mem_cons_self)]
    cases rest with
    | nil => rfl
    | cons d rest => rw [ih (List.cons_ne_nil d rest) fun x hx => h x (List.mem_cons_of_mem _ hx)]

end Lines

section Parts

theorem rpartition_append {sep : Char} {after : List Char} (before : List Char)
    (h : sep ∉ after) : rpartition sep (before ++ sep :: after) = some (before, after) := by
  have hafter : ∀ c ∈ after.reverse, decide (c ≠ sep) = true := fun c hc =>
    decide_eq_true fun heq => h (heq ▸ List.mem_reverse.mp hc)
  have hreverse : (before ++ sep :: after).reverse = after.reverse ++ sep :: before.reverse := by
    simp
  rw [rpartition, hreverse, List.dropWhile_append_of_pos hafter, List.takeWhile_append_of_pos hafter]
  simp

/-- Two texts are parted by the first separator in the same way. -/
theorem append_sep_inj {sep : Char} {front front' back back' : List Char} (h : sep ∉ front)
    (h' : sep ∉ front') :
    front ++ sep :: back = front' ++ sep :: back' ↔ front = front' ∧ back = back' := by
  constructor
  · intro heq
    induction front generalizing front' with
    | nil =>
      cases front' with
      | nil => exact ⟨rfl, (List.cons.inj heq).2⟩
      | cons c front' =>
        rw [(List.cons.inj heq).1] at h'
        exact absurd List.mem_cons_self h'
    | cons c front ih =>
      cases front' with
      | nil =>
        rw [(List.cons.inj heq).1] at h
        exact absurd List.mem_cons_self h
      | cons c' front' =>
        obtain ⟨rfl, htail⟩ := List.cons.inj heq
        obtain ⟨rfl, rfl⟩ := ih (List.not_mem_of_not_mem_cons h)
          (List.not_mem_of_not_mem_cons h') htail
        exact ⟨rfl, rfl⟩
  · rintro ⟨rfl, rfl⟩
    rfl

/-- A text with a separator in it occurs around the first separator of another text, or after
it. -/
theorem infix_around_iff {sep : Char} {p q front back : List Char} (hp : sep ∉ p)
    (hfront : sep ∉ front) :
    p ++ sep :: q <:+: front ++ sep :: back ↔
      (p <:+ front ∧ q <+: back) ∨ p ++ sep :: q <:+: back := by
  constructor
  · rintro ⟨x, y, heq⟩
    -- the first separator lies before the occurrence, or is its own
    by_cases hx : sep ∈ x
    · obtain ⟨x₁, x₂, rfl, hx₁⟩ := List.eq_append_cons_of_mem hx
      have hparts : x₁ ++ sep :: (x₂ ++ (p ++ sep :: q) ++ y) = front ++ sep :: back := by
        rw [← heq]
        simp
      exact .inr ⟨x₂, y, ((append_sep_inj hx₁ hfront).mp hparts).2⟩
    · have hparts : (x ++ p) ++ sep :: (q ++ y) = front ++ sep :: back := by
        rw [← heq]
        simp
      obtain ⟨hxp, hqy⟩ := (append_sep_inj (by simp [hx, hp]) hfront).mp hparts
      exact .inl ⟨⟨x, hxp⟩, ⟨y, hqy⟩⟩
  · rintro (⟨⟨x, rfl⟩, ⟨y, rfl⟩⟩ | ⟨x, y, rfl⟩)
    · exact ⟨x, y, by simp⟩
    · exact ⟨front ++ sep :: x, y, by simp⟩

/-- The longest stretch of a class of characters ends before a character of another class. -/
theorem span_append {p : Char → Bool} (front back : List Char) (h : ∀ c ∈ front, p c = true)
    (hback : ∀ c ∈ back.head?, p c = false) :
    (front ++ back).takeWhile p = front ∧ (front ++ back).dropWhile p = back := by
  rw [List.takeWhile_append_of_pos h, List.dropWhile_append_of_pos h]
  cases back with
  | nil => simp
  | cons c back =>
    have hc := hback c rfl
    simp [hc]

end Parts

section Classes

/-- The code points of all blanks. -/
def blankCodes : List ℕ :=
  [0x09, 0x0a, 0x0b, 0x0c, 0x0d, 0x1c, 0x1d, 0x1e, 0x1f, 0x20, 0x85, 0xa0, 0x1680, 0x2000, 0x2001,
   0x2002, 0x2003, 0x2004, 0x2005, 0x2006, 0x2007, 0x2008, 0x2009, 0x200a, 0x2028, 0x2029, 0x202f,
   0x205f, 0x3000]

theorem toNat_mem_blankCodes {c : Char} (h : isBlank c = true) : c.toNat ∈ blankCodes := by
  simp only [isBlank, isSpace, isUnicodeSpace, Bool.or_eq_true, Bool.and_eq_true, beq_iff_eq,
    decide_eq_true_eq] at h
  -- a space, or a code point in one of the ranges
  rcases h with ((rfl | h) | h) | h
  · decide
  all_goals
    simp only [blankCodes, List.mem_cons, List.not_mem_nil, or_false]
    omega

/-- A blank is no digit. -/
theorem isDecimal_of_isBlank {c : Char} (h : isBlank c = true) : isDecimal c = false := by
  have hcodes : ∀ n ∈ blankCodes, ¬ (48 ≤ n ∧ n ≤ 57) ∧ unicodeDecimal n = none := by decide
  obtain ⟨hascii, hunicode⟩ := hcodes c.toNat (toNat_mem_blankCodes h)
  have hdigit : c.isDigit = false := by
    rw [Bool.eq_false_iff]
    exact fun hc => hascii (by simpa using Char.isDigit_iff_toNat.mp hc)
  rw [isDecimal, hdigit, hunicode]
  rfl

theorem isBlank_of_isDecimal {c : Char} (h : isDecimal c = true) : isBlank c = false := by
  by_contra hblank
  rw [isDecimal_of_isBlank (by simpa using hblank)] at h
  cases h

theorem isDecimal_of_isDigit {c : Char} (h : c.isDigit = true) : isDecimal c = true := by
  rw [isDecimal, h, Bool.true_or]

end Classes

section Numerals

variable {cs : List Char}

theorem digit_of_isDigit {c : Char} (h : c.isDigit = true) :
    digit 10 c = some (c.toNat - 48) := by
  have hrange : 48 ≤ c.toNat ∧ c.toNat ≤ 57 := by simpa using Char.isDigit_iff_toNat.mp h
  have hlt : c.toNat - 48 < 10 := by omega
  simp [digit, hrange, hlt]

theorem digits_of_isDigit (hne : cs ≠ []) (h : ∀ c ∈ cs, c.isDigit = true) :
    digits 10 cs = some (cs.map (·.toNat - 48)) := by
  induction cs with
  | nil => exact absurd rfl hne
  | cons c rest ih =>
    have hc := digit_of_isDigit (h c List.mem_cons_self)
    have hrest : ∀ d ∈ rest, d.isDigit = true := fun d hd => h d (List.mem_cons_of_mem _ hd)
    cases rest with
    | nil => simp [digits, hc]
    | cons d rest =>
      -- a digit is no underscore
      have hd : d ≠ '_' := by
        rintro rfl
        exact absurd (hrest '_' List.mem_cons_self) (by decide)
      rw [digits, hc, ih (List.cons_ne_nil d rest) hrest]
      · rfl
      all_goals simp [hd]

theorem ofDigits_map (cs : List Char) :
    ofDigits 10 (cs.map (·.toNat - 48)) = Nat.ofDigitChars 10 cs 0 := by
  rw [ofDigits, List.foldl_map, Nat.ofDigitChars_eq_foldl]
  congr 1
  funext acc c
  rw [Nat.mul_comm]
  rfl

theorem toAscii_of_isDigit {c : Char} (h : c.isDigit = true) : toAscii c = c := by
  have hrange : 48 ≤ c.toNat ∧ c.toNat ≤ 57 := by simpa using Char.isDigit_iff_toNat.mp h
  simp only [toAscii]
  rw [if_pos (by omega)]

theorem isSpace_of_isDigit {c : Char} (h : c.isDigit = true) : isSpace c = false := by
  have hrange : 48 ≤ c.toNat ∧ c.toNat ≤ 57 := by simpa using Char.isDigit_iff_toNat.mp h
  have hne : c ≠ ' ' := by
    rintro rfl
    cases h
  simp [isSpace, hne]
  omega

theorem strip_of_isDigit (h : ∀ c ∈ cs, c.isDigit = true) : strip cs = cs := by
  have hdrop : ∀ ds : List Char, (∀ c ∈ ds, c.isDigit = true) → ds.dropWhile isSpace = ds := by
    intro ds hds
    cases ds with
    | nil => rfl
    | cons c ds =>
      rw [List.dropWhile_cons_of_neg]
      simp [isSpace_of_isDigit (hds c List.mem_cons_self)]
  rw [strip, hdrop cs h, hdrop cs.reverse fun c hc => h c (List.mem_reverse.mp hc),
    List.reverse_reverse]

/-- `int` reads the numeral of a number back. -/
theorem intDecimal_toDigits {n : ℕ} (h : (Nat.toDigits 10 n).length ≤ maxDecimalDigits) :
    intDecimal (Nat.toDigits 10 n) = some (n : ℤ) := by
  have hdigits : ∀ c ∈ Nat.toDigits 10 n, c.isDigit = true := fun c hc =>
    Nat.isDigit_of_mem_toDigits (by omega) (by omega) hc
  have hascii : (Nat.toDigits 10 n).map toAscii = Nat.toDigits 10 n := by
    conv_rhs => rw [← List.map_id (Nat.toDigits 10 n)]
    exact List.map_congr_left fun c hc => toAscii_of_isDigit (hdigits c hc)
  have hvalue : unsignedDecimal (Nat.toDigits 10 n) = some n := by
    rw [unsignedDecimal, digits_of_isDigit Nat.toDigits_ne_nil hdigits, Option.bind_some,
      if_neg (by simpa using h), ofDigits_map, Nat.ofDigitChars_ten_toDigits]
  rw [intDecimal, hascii, strip_of_isDigit hdigits]
  -- the numeral has no sign
  split
  next rest heq =>
    have hminus := hdigits '-' (heq ▸ List.mem_cons_self)
    cases hminus
  next rest heq =>
    have hplus := hdigits '+' (heq ▸ List.mem_cons_self)
    cases hplus
  next => rw [hvalue, Option.map_some]

end Numerals

end Python
