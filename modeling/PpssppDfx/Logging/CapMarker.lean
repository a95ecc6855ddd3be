import PpssppDfx.Logging.Mirror

/-!
# After the cap marker

The record that crosses the cap is replaced by a marker, and nothing is to follow it. The
handler remembers that it wrote the marker, but looks at the length of a record first: one
that is short enough for what the long one left free is appended behind the marker. A new
handler does not even remember, and writes a marker of its own if there is room.

## Main definitions

* `Logging.Entry` — a record or a cap marker in the file
* `Logging.Ledger` — the mirror, with what was appended to its file and in which order
* `Logging.Quiet` — nothing is appended in a step

## Main results

* `content_step` — the entries are what the handler appends
* `markerIsLast_after_iff` — when nothing follows a cap marker
-/

set_option autoImplicit false

namespace Logging

/-- What an append adds to the file. -/
inductive Entry where
  | record (bytes : List UInt8)
  | marker (bytes : List UInt8)
  deriving DecidableEq

namespace Entry

def bytes : Entry → List UInt8
  | record bytes | marker bytes => bytes

def isMarker : Entry → Bool
  | record _ => false
  | marker _ => true

/-- A write that puts no byte into the file adds no entry. -/
def ofWrite (wrap : List UInt8 → Entry) (bytes : List UInt8) : Option Entry :=
  if bytes = [] then none else some (wrap bytes)

end Entry

/-- The bytes that a write puts into the file. -/
def written (newline : Newline) (text : Text) : Io → List UInt8
  | .unprobed | .unopened => []
  | .cut n => (encode (newline.translate text)).take n
  | .done => encode (newline.translate text)

section Entries

variable (newline : Newline) (maxBytes : ℤ) (s : Mirror)

/-- The entry that `writeCapMarker` adds. -/
def markerEntry (stamp : Text) (io : Io) : Option Entry :=
  -- the flag is one of the handler, not of the file
  if s.capMarked then none
  else if s.size + (encode (fullCapMarker maxBytes stamp)).length > maxBytes then
    if s.size + (encode compactCapMarker).length > maxBytes then none
    else Entry.ofWrite .marker (written newline compactCapMarker io)
  else Entry.ofWrite .marker (written newline (fullCapMarker maxBytes stamp) io)

/-- The entry that `emit` adds. -/
def emitEntry (message : Option Text) (stamp : Text) (io : Io) : Option Entry :=
  match message with
  | none => none
  | some message =>
    -- the file's size could not be found out
    if io = .unprobed then none
    -- beyond the cap there is nothing any more, not even a marker
    else if s.size > maxBytes then none
    else if InHeadroom maxBytes s (lineOf message) then
      Entry.ofWrite .record (written newline (lineOf message) io)
    else markerEntry newline maxBytes s stamp io

/-- The entry that a step adds. -/
def stepEntry : Label → Option Entry
  | .emit message stamp io => emitEntry newline maxBytes s message stamp io
  | .restart => none

end Entries

variable {newline : Newline} {maxBytes : ℤ} {s : Mirror} {text stamp : Text} {io : Io}
  {label : Label}

/-! ## The entries are what the handler appends -/

theorem content_append (wrap : List UInt8 → Entry) (hwrap : ∀ bytes, (wrap bytes).bytes = bytes) :
    (s.append newline text io).file.getD [] =
      s.file.getD [] ++
        (Entry.ofWrite wrap (written newline text io)).toList.flatMap Entry.bytes := by
  have hbytes (bytes : List UInt8) :
      (Entry.ofWrite wrap bytes).toList.flatMap Entry.bytes = bytes := by
    unfold Entry.ofWrite
    split
    · rename_i hnil
      exact hnil.symm
    · simp [hwrap]
  rw [hbytes]
  cases io with
  | unprobed | unopened => exact (List.append_nil _).symm
  | cut | done => rfl

/-- A step appends its entry to the file and leaves the rest of it alone. -/
theorem content_step (newline : Newline) (maxBytes : ℤ) (s : Mirror) (label : Label) :
    (step newline maxBytes s label).file.getD [] =
      s.file.getD [] ++ (stepEntry newline maxBytes s label).toList.flatMap Entry.bytes := by
  have hsame : s.file.getD [] =
      s.file.getD [] ++ (none : Option Entry).toList.flatMap Entry.bytes :=
    (List.append_nil _).symm
  cases label with
  | restart => exact hsame
  | emit message stamp io =>
    cases message with
    | none => exact hsame
    | some message =>
      rw [step, stepEntry, emit, emitEntry]
      split_ifs
      · exact hsame
      · exact hsame
      · exact content_append .record fun _ => rfl
      · unfold writeCapMarker markerEntry
        dsimp only
        split_ifs
        · exact hsame
        · exact hsame
        · exact content_append .marker fun _ => rfl
        · exact content_append .marker fun _ => rfl

/-! ## Steps that append nothing -/

/-- Bytes come to be in the file. -/
def Io.Lands : Io → Prop
  | .unprobed | .unopened => False
  | .cut n => 0 < n
  | .done => True

/-- Nothing is appended: the record is lost, or the file is beyond the cap, or the record is too
long for the headroom and the marker was written by this handler or finds no room in either of
its forms. -/
def Quiet (maxBytes : ℤ) (s : Mirror) : Label → Prop
  | .emit (some message) _ io =>
    ¬ io.Lands ∨ maxBytes < s.size ∨
      ¬ InHeadroom maxBytes s (lineOf message) ∧
        (s.capMarked = true ∨ maxBytes < s.size + (encode compactCapMarker).length)
  | _ => True

theorem encode_append (front back : Text) : encode (front ++ back) = encode front ++ encode back :=
  List.flatMap_append

theorem length_encode_pos (hne : text ≠ []) : 0 < (encode text).length := by
  cases text with
  | nil => exact absurd rfl hne
  | cons c rest =>
    rw [encode_cons, List.length_append]
    have hc := List.length_pos_iff.mpr (String.utf8EncodeChar_ne_nil (c := c))
    omega

theorem written_eq_nil_iff (hne : text ≠ []) : written newline text io = [] ↔ ¬ io.Lands := by
  have hpos : 0 < (encode (newline.translate text)).length := by
    have htext := length_encode_pos hne
    cases newline with
    | lf => exact htext
    | crlf =>
      rw [length_encode_crlf]
      omega
  cases io with
  | unprobed | unopened => exact iff_of_true rfl not_false
  | cut n =>
    rw [written, Io.Lands, List.take_eq_nil_iff, Nat.not_lt, Nat.le_zero,
      or_iff_left (List.ne_nil_of_length_pos hpos)]
  | done =>
    rw [written, Io.Lands, not_true, iff_false]
    exact List.ne_nil_of_length_pos hpos

theorem ofWrite_eq_none_iff {wrap : List UInt8 → Entry} (hne : text ≠ []) :
    Entry.ofWrite wrap (written newline text io) = none ↔ ¬ io.Lands := by
  have hnil : written newline text io = [] ↔ ¬ io.Lands := written_eq_nil_iff hne
  rw [← hnil, Entry.ofWrite]
  split <;> simp_all

/-- Where the full marker fits, so does the compact one. -/
theorem length_compactCapMarker_le (maxBytes : ℤ) (stamp : Text) :
    (encode compactCapMarker).length ≤ (encode (fullCapMarker maxBytes stamp)).length := by
  have hlast : (encode ['\n']).length ≤
      (encode " — further records suppressed.\n".toList).length := by decide
  simp only [compactCapMarker, fullCapMarker, encode_append, List.length_append]
  omega

/-- A step appends nothing exactly when it is a quiet one. -/
theorem stepEntry_eq_none_iff :
    stepEntry newline maxBytes s label = none ↔ Quiet maxBytes s label := by
  cases label with
  | restart => exact iff_of_true rfl trivial
  | emit message stamp io =>
    cases message with
    | none => exact iff_of_true rfl trivial
    | some message =>
      have hline : lineOf message ≠ [] := by simp [lineOf]
      -- each of the three texts has characters, so a write of it is seen in the file
      have hcompact : compactCapMarker ≠ [] := by simp [compactCapMarker]
      have hfull : fullCapMarker maxBytes stamp ≠ [] := by simp [fullCapMarker]
      rw [stepEntry, emitEntry, Quiet]
      split_ifs with hprobe hover hroom
      · subst hprobe
        exact iff_of_true rfl (Or.inl not_false)
      · exact iff_of_true rfl (Or.inr (Or.inl hover))
      · rw [ofWrite_eq_none_iff hline]
        simp [hover, hroom]
      · unfold markerEntry
        split_ifs with hmarked hlong hnone
        · exact iff_of_true rfl (Or.inr (Or.inr ⟨hroom, Or.inl hmarked⟩))
        · exact iff_of_true rfl (Or.inr (Or.inr ⟨hroom, Or.inr hnone⟩))
        · rw [ofWrite_eq_none_iff hcompact]
          have hfits : ¬ maxBytes < s.size + (encode compactCapMarker).length := hnone
          simp [hover, hmarked, hfits]
        · rw [ofWrite_eq_none_iff hfull]
          have hfits : ¬ maxBytes < s.size + (encode compactCapMarker).length := by
            have hle := length_compactCapMarker_le maxBytes stamp
            omega
          simp [hover, hmarked, hfits]

/-! ## Runs -/

/-- The mirror and its file: what was in it before, and the entries that were appended. -/
structure Ledger where
  mirror : Mirror
  before : List UInt8
  entries : List Entry
  content : mirror.file.getD [] = before ++ entries.flatMap Entry.bytes

/-- Nothing was appended behind a cap marker: no record, and no other marker. -/
def MarkerIsLast (entries : List Entry) : Prop :=
  entries.Pairwise fun earlier _ => earlier.isMarker = false

namespace Ledger

variable (newline : Newline) (maxBytes : ℤ)

/-- A step of the handler. -/
def step (l : Ledger) (label : Label) : Ledger where
  mirror := Logging.step newline maxBytes l.mirror label
  before := l.before
  entries := l.entries ++ (stepEntry newline maxBytes l.mirror label).toList
  content := by rw [content_step, l.content, List.flatMap_append, List.append_assoc]

/-- The file after a sequence of records and restarts. -/
def after (l : Ledger) (labels : List Label) : Ledger := labels.foldl (step newline maxBytes) l

/-- A cap marker has been written. -/
def Capped (l : Ledger) : Prop := ∃ e ∈ l.entries, e.isMarker = true

/-- Once a cap marker has been written, all steps are quiet. -/
def Heeds (l : Ledger) : List Label → Prop
  | [] => True
  | label :: rest =>
    (l.Capped → Quiet maxBytes l.mirror label) ∧ (l.step newline maxBytes label).Heeds rest

variable {newline} {maxBytes} {l : Ledger} {label : Label} {labels : List Label}

/-- What was appended stays where it is. -/
theorem entries_prefix_after : l.entries <+: (l.after newline maxBytes labels).entries := by
  induction labels generalizing l with
  | nil => exact List.prefix_rfl
  | cons label rest ih =>
    exact (List.prefix_append _ _).trans (ih (l := l.step newline maxBytes label))

/-- One step keeps the marker last exactly when it is quiet behind a marker. -/
theorem markerIsLast_step_iff (h : MarkerIsLast l.entries) :
    MarkerIsLast (l.step newline maxBytes label).entries ↔
      (l.Capped → Quiet maxBytes l.mirror label) := by
  have hquiet : stepEntry newline maxBytes l.mirror label = none ↔
    Quiet maxBytes l.mirror label := stepEntry_eq_none_iff
  rw [← hquiet]
  change (l.entries ++ (stepEntry newline maxBytes l.mirror label).toList).Pairwise _ ↔ _
  cases hentry : stepEntry newline maxBytes l.mirror label with
  | none =>
    rw [Option.toList_none, List.append_nil]
    exact iff_of_true h fun _ => rfl
  | some entry =>
    rw [Option.toList_some, List.pairwise_append]
    constructor
    · rintro ⟨-, -, hlast⟩ ⟨e, he, hmarker⟩
      -- the marker is before the new entry, which has nothing to be there for
      have hnot := hlast e he entry (List.mem_singleton_self entry)
      rw [hmarker] at hnot
      cases hnot
    · intro hquiet
      refine ⟨h, List.pairwise_singleton _ _, fun e he _ _ => ?_⟩
      rw [← Bool.not_eq_true]
      intro hmarker
      cases hquiet ⟨e, he, hmarker⟩

end Ledger

/-- In a run of records and restarts the cap marker stays the last entry of the file exactly
when all steps behind a marker are quiet. -/
theorem markerIsLast_after_iff (newline : Newline) (maxBytes : ℤ) (l : Ledger)
    (labels : List Label) (h : MarkerIsLast l.entries) :
    MarkerIsLast (l.after newline maxBytes labels).entries ↔ l.Heeds newline maxBytes labels := by
  induction labels generalizing l with
  | nil => exact iff_of_true h trivial
  | cons label rest ih =>
    have hsplit : l.after newline maxBytes (label :: rest) =
        (l.step newline maxBytes label).after newline maxBytes rest := rfl
    rw [hsplit, Ledger.Heeds, ← Ledger.markerIsLast_step_iff h]
    constructor
    · intro hafter
      -- what follows later does not move the entries of the first step
      have hstep : MarkerIsLast (l.step newline maxBytes label).entries :=
        List.Pairwise.sublist Ledger.entries_prefix_after.sublist hafter
      exact ⟨hstep, (ih _ hstep).mp hafter⟩
    · rintro ⟨hstep, hrest⟩
      exact (ih _ hstep).mpr hrest

/-- A mirror that has no file yet, and a new handler. -/
def newLedger : Ledger := ⟨⟨none, false⟩, [], [], rfl⟩

/-- A record of one short line. -/
def shortRecord : Label := .emit (some bootRecord) noon .done

/-- A record of so many letters. -/
def letters (n : ℕ) : Label := .emit (some (List.replicate n 'a')) noon .done

theorem length_encode_replicate (n : ℕ) : (encode (List.replicate n 'a')).length = n := by
  induction n with
  | zero => rfl
  | succ n ih =>
    have hone : (String.utf8EncodeChar 'a').length = 1 := by decide
    rw [List.replicate_succ, encode_cons, List.length_append, ih, hone]
    omega

/-- The cap alone has no room for the record. -/
theorem not_inHeadroom_letters {n : ℕ} (hn : mirrorMaxBytes ≤ n) (s : Mirror) :
    ¬ InHeadroom mirrorMaxBytes s (lineOf (List.replicate n 'a')) := by
  rw [InHeadroom, lineOf, encode_append, List.length_append, length_encode_replicate]
  unfold markerMaxBytes
  omega

/-- The marker takes the place of the record. -/
theorem stepEntry_letters {n : ℕ} (hn : mirrorMaxBytes ≤ n) {s : Mirror}
    (hmarked : s.capMarked = false)
    (hfits : s.size + (encode (fullCapMarker mirrorMaxBytes noon)).length ≤ mirrorMaxBytes) :
    stepEntry .lf mirrorMaxBytes s (letters n) =
        some (.marker (encode (fullCapMarker mirrorMaxBytes noon))) ∧
      step .lf mirrorMaxBytes s (letters n) =
        ⟨some (s.file.getD [] ++ encode (fullCapMarker mirrorMaxBytes noon)), true⟩ := by
  have hsize : ¬ s.size > mirrorMaxBytes := by omega
  have hroom := not_inHeadroom_letters hn s
  have hmarker : encode (fullCapMarker mirrorMaxBytes noon) ≠ [] :=
    List.ne_nil_of_length_pos (length_encode_pos (by simp [fullCapMarker]))
  constructor
  · rw [letters, stepEntry, emitEntry, if_neg (by decide), if_neg hsize, if_neg hroom, markerEntry,
      if_neg (by simp [hmarked]), if_neg (Int.not_lt.mpr hfits)]
    exact if_neg hmarker
  · rw [letters, step, emit, if_neg (by decide), if_neg hsize, if_neg hroom, writeCapMarker,
      if_neg (by simp [hmarked])]
    exact if_neg (Int.not_lt.mpr hfits)

/-- The file of a new mirror after a record that it has no room for. -/
def cappedMirror : Mirror := ⟨some (encode (fullCapMarker mirrorMaxBytes noon)), true⟩

theorem step_letters {n : ℕ} (hn : mirrorMaxBytes ≤ n) :
    (newLedger.step .lf mirrorMaxBytes (letters n)).mirror = cappedMirror ∧
      MarkerIsLast (newLedger.step .lf mirrorMaxBytes (letters n)).entries ∧
      (newLedger.step .lf mirrorMaxBytes (letters n)).Capped := by
  have hspec := stepEntry_letters hn (s := ⟨none, false⟩) rfl (by decide)
  have hentries : (newLedger.step .lf mirrorMaxBytes (letters n)).entries =
      [.marker (encode (fullCapMarker mirrorMaxBytes noon))] := by
    change [] ++ (stepEntry .lf mirrorMaxBytes ⟨none, false⟩ (letters n)).toList = _
    rw [hspec.1]
    rfl
  refine ⟨hspec.2, ?_, ?_⟩
  · rw [hentries]
    exact List.pairwise_singleton _ _
  · rw [Ledger.Capped, hentries]
    exact ⟨_, List.mem_singleton_self _, rfl⟩

/-- A marker takes the place of a long record, and the same record again is suppressed. -/
theorem markerIsLast_longRecords :
    (newLedger.step .lf mirrorMaxBytes (letters 10485760)).Capped ∧
      MarkerIsLast (newLedger.after .lf mirrorMaxBytes
        [letters 10485760, letters 10485760]).entries := by
  have hlong : mirrorMaxBytes ≤ (10485760 : ℕ) := by decide
  obtain ⟨hmirror, -, hcapped⟩ := step_letters hlong
  have hempty : ¬ newLedger.Capped := fun ⟨e, he, _⟩ => absurd he List.not_mem_nil
  have hquiet : Quiet mirrorMaxBytes cappedMirror (letters 10485760) :=
    Or.inr (Or.inr ⟨not_inHeadroom_letters hlong cappedMirror, Or.inl rfl⟩)
  refine ⟨hcapped, (markerIsLast_after_iff _ _ newLedger _ List.Pairwise.nil).mpr
    ⟨fun hnot => absurd hnot hempty, fun _ => ?_, trivial⟩⟩
  rw [hmirror]
  exact hquiet

/-- Behind the marker of a long record a short one is appended. -/
theorem not_markerIsLast_short {n : ℕ} (hn : mirrorMaxBytes ≤ n) :
    ¬ MarkerIsLast (newLedger.after .lf mirrorMaxBytes [letters n, shortRecord]).entries := by
  obtain ⟨hmirror, hlast, hcapped⟩ := step_letters hn
  have hloud : ¬ Quiet mirrorMaxBytes cappedMirror shortRecord := by
    rintro (hlost | hover | ⟨hout, -⟩)
    · exact hlost trivial
    · exact absurd hover (by decide)
    · exact hout (by decide)
  intro hall
  rw [← hmirror] at hloud
  exact hloud ((Ledger.markerIsLast_step_iff hlast).mp hall hcapped)

/-- After a restart, another long record has its marker appended. -/
theorem not_markerIsLast_restart {n : ℕ} (hn : mirrorMaxBytes ≤ n) :
    ¬ MarkerIsLast
      (newLedger.after .lf mirrorMaxBytes [letters n, .restart, letters n]).entries := by
  obtain ⟨hmirror, hlast, hcapped⟩ := step_letters hn
  have hentries : ((newLedger.step .lf mirrorMaxBytes (letters n)).step .lf mirrorMaxBytes
      .restart).entries = (newLedger.step .lf mirrorMaxBytes (letters n)).entries :=
    List.append_nil _
  have hloud : ¬ Quiet mirrorMaxBytes { cappedMirror with capMarked := false } (letters n) := by
    rintro (hlost | hover | ⟨-, hmarked | hfull⟩)
    · exact hlost trivial
    · exact absurd hover (by decide)
    · cases hmarked
    · exact absurd hfull (by decide)
  intro hall
  rw [← hmirror] at hloud
  rw [← hentries] at hlast
  refine hloud ((Ledger.markerIsLast_step_iff hlast).mp hall ?_)
  rw [Ledger.Capped, hentries]
  exact hcapped

/-- A record of ten million letters, and then a short one, or a restart and the record again. -/
theorem not_markerIsLast_letters :
    ¬ MarkerIsLast (newLedger.after .lf mirrorMaxBytes [letters 10485760, shortRecord]).entries ∧
      ¬ MarkerIsLast (newLedger.after .lf mirrorMaxBytes
        [letters 10485760, .restart, letters 10485760]).entries := by
  have hlong : mirrorMaxBytes ≤ (10485760 : ℕ) := by decide
  exact ⟨not_markerIsLast_short hlong, not_markerIsLast_restart hlong⟩

end Logging
