import Mathlib.Data.Bool.AllAny
import Mathlib.Data.Fin.Basic
import PpssppDfx.Launcher.Binds

/-!
# Tables of sockets

What lsof, ss and netstat print: a line for each socket, in any order, between lines that are no
rows of the table. On such output the parsers read what the lines say, with two exceptions. The
pattern for lsof has no room for the colons of an IPv6 address, and the netstat parser leaves its
brackets on.

## Main definitions

* `Launcher.Socket` — a listening socket: its address, its port and the processes that hold it
* `Launcher.LsofRow`, `Launcher.SsRow`, `Launcher.NetstatRow` — the line of a socket
* `Launcher.Lists` — the lines of a table

## Main results

* `Launcher.parseLsofBinds_eq`, `Launcher.ssBindsForPid_eq`,
  `Launcher.parseNetstatWindowsWithBinds_eq` — what the parsers make of a table
-/

set_option autoImplicit false

namespace Launcher

open Python

section Sockets

/-- The interface that an address is limited to: nothing, or a name after a percent sign. -/
structure Zone where
  text : List Char
  percent : ∀ c ∈ text.head?, c = '%'
  plain : ∀ c ∈ text, isBlank c = false ∧ c ≠ ':' ∧ c ≠ '=' ∧ c ≠ '[' ∧ c ≠ ']'

/-- An IPv6 address, in the one spelling that the tools give it. -/
structure V6 where
  text : List Char
  colon : ':' ∈ text
  plain : ∀ c ∈ text, isBlank c = false ∧ c ≠ '=' ∧ c ≠ '[' ∧ c ≠ ']'

inductive Host where
  | wildcard
  | v4 (a b c d : Fin 256) (zone : Zone)
  | v6 (address : V6) (zone : Zone)

def dotted (a b c d : Fin 256) : List Char :=
  Nat.toDigits 10 a ++ '.' :: (Nat.toDigits 10 b ++ '.' :: (Nat.toDigits 10 c ++
    '.' :: Nat.toDigits 10 d))

def Host.text : Host → List Char
  | .wildcard => ['*']
  | .v4 a b c d zone => dotted a b c d ++ zone.text
  | .v6 address zone => '[' :: (address.text ++ ']' :: zone.text)

/-- The addresses that only the machine itself can reach: `127.0.0.0/8`, also as IPv6 addresses,
and `::1`. -/
def Host.IsLoopback : Host → Prop
  | .wildcard => False
  | .v4 a _ _ _ _ => (a : ℕ) = 127
  | .v6 address _ => address.text = "::1".toList ∨ "::ffff:127.".toList <+: address.text

instance : DecidablePred Host.IsLoopback := fun host =>
  match host with
  | .wildcard => inferInstanceAs (Decidable False)
  | .v4 a _ _ _ _ => inferInstanceAs (Decidable ((a : ℕ) = 127))
  | .v6 address _ => inferInstanceAs
      (Decidable (address.text = "::1".toList ∨ "::ffff:127.".toList <+: address.text))

inductive Tool where
  | lsof
  | ss
  | netstat
  deriving DecidableEq

/-- The pattern for lsof takes no address with colons. -/
def Host.isReadBy : Tool → Host → Bool
  | .lsof, .v6 _ _ => false
  | _, _ => true

/-- The address as the parser of a tool returns it. -/
def Host.addressBy : Tool → Host → List Char
  | .netstat, host => host.text
  | _, .wildcard => "0.0.0.0".toList
  | _, .v4 a b c d zone => (Host.v4 a b c d zone).text
  | _, .v6 address zone =>
    if zone.text = [] then address.text else address.text ++ ']' :: zone.text

/-- A listening socket. Several processes may hold one. -/
structure Socket where
  host : Host
  port : Fin 65536
  owners : List ℕ

def Socket.column (k : Socket) : List Char := k.host.text ++ ':' :: Nat.toDigits 10 k.port

end Sockets

section Rows

/-- `... TCP 127.0.0.1:7777 (LISTEN)`. -/
def LsofRow (line : List Char) (k : Socket) : Prop :=
  ∃ before, splitBlank line = before ++ ["TCP".toList, k.column, "(LISTEN)".toList] ∧
    ∀ cell ∈ before, ¬ "(LISTEN)".toList <+: cell

def LsofOther (line : List Char) : Prop := ¬ "(LISTEN)".toList <:+: line

/-- `f"pid={pid}"`. -/
def pidEq (pid : ℕ) : List Char := "pid".toList ++ '=' :: Nat.toDigits 10 pid

/-- A process that holds a socket, as ss shows it. Its name may be any text. -/
structure Holder where
  name : List Char
  pid : ℕ
  fd : ℕ

/-- `("name",pid=1234,fd=5)`. -/
def Holder.text (u : Holder) : List Char :=
  "(".toList ++ '"' :: (u.name ++ '"' :: ',' :: (pidEq u.pid ++ ',' ::
    ("fd=".toList ++ Nat.toDigits 10 u.fd ++ [')'])))

/-- The holders after the first one, and the end of the list. -/
def holdersEnd : List Holder → List Char
  | [] => [')']
  | u :: users => ',' :: (u.text ++ holdersEnd users)

/-- `users:((...),(...))`; the column is empty where ss may not tell. -/
def holdersText : List Holder → List Char
  | [] => []
  | u :: users => "users:(".toList ++ (u.text ++ holdersEnd users)

/-- `LISTEN 0 128 127.0.0.1:7777 0.0.0.0:* users:(("name",pid=1234,fd=5))`. The name of a process
may have blanks in it. -/
def SsRow (line : List Char) (k : Socket) : Prop :=
  ∃ recvQ sendQ peer users,
    splitBlank line =
      "LISTEN".toList :: recvQ :: sendQ :: k.column :: peer :: splitBlank (holdersText users) ∧
    '=' ∉ recvQ ∧ '=' ∉ sendQ ∧ '=' ∉ peer ∧ (∀ u ∈ users, '=' ∉ u.name) ∧
    k.owners = users.map Holder.pid

def SsOther (line : List Char) : Prop := (splitBlank line).head? ≠ some "LISTEN".toList

/-- `TCP 127.0.0.1:11242 0.0.0.0:0 LISTENING 12345`. -/
def NetstatRow (line : List Char) (k : Socket) : Prop :=
  ∃ foreign owner,
    splitBlank line =
      ["TCP".toList, k.column, foreign, "LISTENING".toList, Nat.toDigits 10 owner] ∧
    k.owners = [owner]

def NetstatOther (line : List Char) : Prop :=
  ∀ localAddr foreign rest,
    splitBlank line ≠ "TCP".toList :: localAddr :: foreign :: "LISTENING".toList :: rest

/-- The lines of a table with the sockets that they show, in order. -/
inductive Lists (row : List Char → Socket → Prop) (other : List Char → Prop) :
    List (List Char) → List Socket → Prop
  | nil : Lists row other [] []
  | row {line : List Char} {k : Socket} {lines : List (List Char)} {ks : List Socket}
      (h : row line k) (hrest : Lists row other lines ks) : Lists row other (line :: lines) (k :: ks)
  | other {line : List Char} {lines : List (List Char)} {ks : List Socket} (h : other line)
      (hrest : Lists row other lines ks) : Lists row other (line :: lines) ks

end Rows

section Spelling

variable {k : Socket} {host : Host}

theorem isDigit_of_mem_toDigits {n : ℕ} {c : Char} (h : c ∈ Nat.toDigits 10 n) :
    c.isDigit = true :=
  Nat.isDigit_of_mem_toDigits (by omega) (by omega) h

theorem notMem_toDigits {n : ℕ} {c : Char} (h : c.isDigit = false) : c ∉ Nat.toDigits 10 n := by
  intro hc
  rw [isDigit_of_mem_toDigits hc] at h
  cases h

theorem toDigits_inj {m n : ℕ} : Nat.toDigits 10 m = Nat.toDigits 10 n ↔ m = n := by
  constructor
  · intro h
    rw [← Nat.ofDigitChars_ten_toDigits (n := m), h, Nat.ofDigitChars_ten_toDigits]
  · rintro rfl
    rfl

/-- The characters of an IPv4 address are digits and dots. -/
theorem mem_dotted {a b c d : Fin 256} {x : Char} (h : x ∈ dotted a b c d) :
    x.isDigit = true ∨ x = '.' := by
  simp only [dotted, List.mem_append, List.mem_cons] at h
  rcases h with h | rfl | h | rfl | h | rfl | h
  all_goals first
    | exact .inr rfl
    | exact .inl (isDigit_of_mem_toDigits h)

theorem dotted_inj {a b c d a' b' c' d' : Fin 256} :
    dotted a b c d = dotted a' b' c' d' ↔ a = a' ∧ b = b' ∧ c = c' ∧ d = d' := by
  have hdot : ∀ n : ℕ, '.' ∉ Nat.toDigits 10 n := fun n => notMem_toDigits (by decide)
  rw [dotted, dotted, append_sep_inj (hdot _) (hdot _), append_sep_inj (hdot _) (hdot _),
    append_sep_inj (hdot _) (hdot _)]
  simp [toDigits_inj, Fin.ext_iff]

theorem isBlank_of_isDigit {c : Char} (h : c.isDigit = true) : isBlank c = false :=
  isBlank_of_isDecimal (isDecimal_of_isDigit h)

theorem ne_of_isDigit {c d : Char} (h : c.isDigit = true) (hd : d.isDigit = false) : c ≠ d := by
  rintro rfl
  rw [h] at hd
  cases hd

/-- Neither blanks nor equality signs are in an address. -/
theorem Host.plain (host : Host) : ∀ c ∈ host.text, isBlank c = false ∧ c ≠ '=' := by
  intro c hc
  cases host with
  | wildcard =>
    rw [List.mem_singleton.mp hc]
    decide
  | v4 o₁ o₂ o₃ o₄ zone =>
    rcases List.mem_append.mp hc with hc | hc
    · rcases mem_dotted hc with hdigit | rfl
      · exact ⟨isBlank_of_isDigit hdigit, ne_of_isDigit hdigit (by decide)⟩
      · decide
    · exact ⟨(zone.plain c hc).1, (zone.plain c hc).2.2.1⟩
  | v6 address zone =>
    simp only [Host.text, List.mem_cons, List.mem_append] at hc
    rcases hc with rfl | hc | rfl | hc
    · decide
    · exact ⟨(address.plain c hc).1, (address.plain c hc).2.1⟩
    · decide
    · exact ⟨(zone.plain c hc).1, (zone.plain c hc).2.2.1⟩

theorem Socket.column_plain (k : Socket) : ∀ c ∈ k.column, isBlank c = false ∧ c ≠ '=' := by
  intro c hc
  rcases List.mem_append.mp hc with hc | hc
  · exact k.host.plain c hc
  · rcases List.mem_cons.mp hc with rfl | hc
    · decide
    · have hdigit := isDigit_of_mem_toDigits hc
      exact ⟨isBlank_of_isDigit hdigit, ne_of_isDigit hdigit (by decide)⟩

/-- An address does not begin with a parenthesis. -/
theorem Socket.head_column_ne (k : Socket) : ∀ c ∈ k.column.head?, c ≠ '(' := by
  intro c hc
  rw [Socket.column] at hc
  cases hhost : k.host with
  | wildcard =>
    rw [hhost] at hc
    cases hc
    decide
  | v4 o₁ o₂ o₃ o₄ zone =>
    obtain ⟨x, rest, hdigits⟩ := List.exists_cons_of_ne_nil
      (Nat.toDigits_ne_nil : Nat.toDigits 10 (o₁ : ℕ) ≠ [])
    rw [hhost, Host.text, dotted, hdigits] at hc
    cases hc
    have hdigit : c.isDigit = true :=
      isDigit_of_mem_toDigits (n := o₁) (by rw [hdigits]; exact List.mem_cons_self)
    exact ne_of_isDigit hdigit (by decide)
  | v6 address zone =>
    rw [hhost] at hc
    cases hc
    decide

end Spelling

section Pattern

variable {cs addr port line : List Char} {k : Socket}

theorem isBlank_of_isAddrChar {c : Char} (h : isAddrChar c = true) : isBlank c = false := by
  simp only [isAddrChar, Bool.and_eq_true, Bool.not_eq_true'] at h
  exact h.1

theorem ne_colon_of_isAddrChar {c : Char} (h : isAddrChar c = true) : c ≠ ':' := by
  simp only [isAddrChar, Bool.and_eq_true, bne_iff_ne] at h
  exact h.2

/-- The texts that match the pattern from their start. -/
structure Matches (cs addr port gap gap' rest : List Char) : Prop where
  eq : cs = "TCP".toList ++ (gap ++ (addr ++ ':' :: (port ++ (gap' ++ ("(LISTEN)".toList ++ rest)))))
  gap_ne : gap ≠ []
  gap_blank : ∀ c ∈ gap, isBlank c = true
  addr_ne : addr ≠ []
  addr_class : ∀ c ∈ addr, isAddrChar c = true
  port_ne : port ≠ []
  port_class : ∀ c ∈ port, isDecimal c = true
  gap'_ne : gap' ≠ []
  gap'_blank : ∀ c ∈ gap', isBlank c = true

theorem exists_matches (h : matchListen cs = some (addr, port)) :
    ∃ gap gap' rest, Matches cs addr port gap gap' rest := by
  unfold matchListen at h
  split at h
  next rest =>
    dsimp only at h
    split at h
    next fromPort hfromPort =>
      split_ifs at h with hall
      obtain ⟨hgap, haddr, hport, hgap', back, hback⟩ := hall
      rw [Option.some.injEq, Prod.mk.injEq] at h
      obtain ⟨rfl, rfl⟩ := h
      refine ⟨rest.takeWhile isBlank, (fromPort.dropWhile isDecimal).takeWhile isBlank, back,
        ⟨?_, hgap, fun c hc => List.mem_takeWhile_imp hc, haddr, fun c hc =>
          List.mem_takeWhile_imp hc, hport, fun c hc => List.mem_takeWhile_imp hc, hgap',
          fun c hc => List.mem_takeWhile_imp hc⟩⟩
      rw [hback, List.takeWhile_append_dropWhile, List.takeWhile_append_dropWhile, ← hfromPort,
        List.takeWhile_append_dropWhile, List.takeWhile_append_dropWhile]
      rfl
    · cases h
  · cases h

theorem Matches.matchListen {gap gap' rest : List Char}
    (h : Matches cs addr port gap gap' rest) : matchListen cs = some (addr, port) := by
  obtain ⟨rfl, hgap, hgapBlank, haddr, haddrClass, hport, hportClass, hgap', hgapBlank'⟩ := h
  obtain ⟨a, addr, rfl⟩ := List.exists_cons_of_ne_nil haddr
  obtain ⟨b, gap', rfl⟩ := List.exists_cons_of_ne_nil hgap'
  -- each stretch ends where the next one begins
  obtain ⟨htakeGap, hdropGap⟩ := span_append gap (a :: addr ++ ':' :: (port ++
      (b :: gap' ++ ("(LISTEN)".toList ++ rest)))) hgapBlank fun c hc => by
    cases hc
    exact isBlank_of_isAddrChar (haddrClass a List.mem_cons_self)
  obtain ⟨htakeAddr, hdropAddr⟩ := span_append (a :: addr) (':' :: (port ++
      (b :: gap' ++ ("(LISTEN)".toList ++ rest)))) haddrClass fun c hc => by
    cases hc
    rfl
  obtain ⟨htakePort, hdropPort⟩ := span_append port (b :: gap' ++ ("(LISTEN)".toList ++ rest))
      hportClass fun c hc => by
    cases hc
    exact isDecimal_of_isBlank (hgapBlank' b List.mem_cons_self)
  obtain ⟨htakeEnd, hdropEnd⟩ := span_append (b :: gap') ("(LISTEN)".toList ++ rest) hgapBlank'
      fun c hc => by
    cases hc
    rfl
  change Launcher.matchListen ('T' :: 'C' :: 'P' :: (gap ++ (a :: addr ++ ':' :: (port ++
    (b :: gap' ++ ("(LISTEN)".toList ++ rest)))))) = some (a :: addr, port)
  simp only [Launcher.matchListen, htakeGap, hdropGap, htakeAddr, hdropAddr, htakePort, hdropPort,
    htakeEnd, hdropEnd]
  rw [if_pos ⟨hgap, haddr, hport, hgap', List.prefix_append _ _⟩]

/-- Where only the last of the cells is of a kind, the cell before one of that kind is the last but
one. -/
theorem eq_of_cells {P : List Char → Prop} {ws ws' before : List (List Char)}
    {v m v' t column l : List Char} (hv : P v') (hbefore : ∀ cell ∈ before, ¬ P cell) (ht : ¬ P t)
    (hcolumn : ¬ P column)
    (h : (ws ++ [v]) ++ m :: v' :: ws' = before ++ [t, column, l]) : column = m := by
  rcases List.eq_nil_or_concat ws' with rfl | ⟨init, last, rfl⟩
  · have hparts : (ws ++ [v]) ++ [m, v'] = (before ++ [t]) ++ [column, l] := by
      rw [h, List.append_assoc]
      rfl
    exact (List.cons.inj (List.append_inj' hparts rfl).2).1.symm
  · -- the cell would stand before the last one
    have hparts : ((ws ++ [v]) ++ m :: v' :: init) ++ [last] = (before ++ [t, column]) ++ [l] := by
      simpa using h
    have hfront := (List.append_inj' hparts rfl).1
    have hmem : v' ∈ before ++ [t, column] := by
      rw [← hfront]
      simp
    simp only [List.mem_append, List.mem_cons, List.not_mem_nil, or_false] at hmem
    rcases hmem with hmem | rfl | rfl
    · exact absurd hv (hbefore v' hmem)
    · exact absurd hv ht
    · exact absurd hv hcolumn

theorem Socket.not_listen_prefix_column (k : Socket) : ¬ "(LISTEN)".toList <+: k.column := by
  rintro ⟨rest, hrest⟩
  exact k.head_column_ne '(' (by rw [← hrest]; rfl) rfl

theorem isBlank_of_mem_match (haddr : ∀ c ∈ addr, isAddrChar c = true)
    (hport : ∀ c ∈ port, isDecimal c = true) : ∀ c ∈ addr ++ ':' :: port, isBlank c = false := by
  intro c hc
  rcases List.mem_append.mp hc with hc | hc
  · exact isBlank_of_isAddrChar (haddr c hc)
  · rcases List.mem_cons.mp hc with rfl | hc
    · decide
    · exact isBlank_of_isDecimal (hport c hc)

/-- A row has no match of the pattern but one around its address. -/
theorem column_of_matchListen (hrow : LsofRow line k) (hsuffix : cs <:+ line)
    (h : matchListen cs = some (addr, port)) : k.column = addr ++ ':' :: port := by
  obtain ⟨before, hcells, hbefore⟩ := hrow
  obtain ⟨gap, gap', rest, hmatch⟩ := exists_matches h
  obtain ⟨text, rfl⟩ := hsuffix
  obtain ⟨rfl, hgap, hgapBlank, -, haddrClass, -, hportClass, hgap', hgapBlank'⟩ := hmatch
  obtain ⟨b, gap, rfl⟩ := List.exists_cons_of_ne_nil hgap
  obtain ⟨b', gap', rfl⟩ := List.exists_cons_of_ne_nil hgap'
  obtain ⟨ws, v, hws, -⟩ := exists_splitBlank_append_word (w := "TCP".toList) (by decide)
    (List.all_iff_forall_prop.mp (by decide)) text
  obtain ⟨v', ws', hws', hlisten⟩ := exists_splitBlank_word_append (w := "(LISTEN)".toList)
    (by decide) (List.all_iff_forall_prop.mp (by decide)) rest
  have hgapTail : ∀ c ∈ gap, isBlank c = true := fun c hc =>
    hgapBlank c (List.mem_cons_of_mem _ hc)
  have hgapTail' : ∀ c ∈ gap', isBlank c = true := fun c hc =>
    hgapBlank' c (List.mem_cons_of_mem _ hc)
  -- the words of the line, taken apart at the two gaps of the match
  have hwords : splitBlank (text ++ ("TCP".toList ++ (b :: gap ++ (addr ++ ':' :: (port ++
      (b' :: gap' ++ ("(LISTEN)".toList ++ rest))))))) =
      (ws ++ [v]) ++ (addr ++ ':' :: port) :: v' :: ws' := by
    calc splitBlank (text ++ ("TCP".toList ++ (b :: gap ++ (addr ++ ':' :: (port ++
          (b' :: gap' ++ ("(LISTEN)".toList ++ rest)))))))
        = splitBlank ((text ++ "TCP".toList) ++ b :: (gap ++ ((addr ++ ':' :: port) ++
            b' :: (gap' ++ ("(LISTEN)".toList ++ rest))))) := by
          simp only [List.append_assoc, List.cons_append]
      _ = splitBlank (text ++ "TCP".toList) ++ splitBlank ((addr ++ ':' :: port) ++
            b' :: (gap' ++ ("(LISTEN)".toList ++ rest))) := by
          rw [splitBlank_append_cons _ _ (hgapBlank b List.mem_cons_self), splitBlank_gap hgapTail]
      _ = (ws ++ [v]) ++ ([addr ++ ':' :: port] ++ (v' :: ws')) := by
          rw [splitBlank_append_cons _ _ (hgapBlank' b' List.mem_cons_self),
            splitBlank_gap hgapTail', hws, hws', splitBlank_word (by simp)
              (isBlank_of_mem_match haddrClass hportClass)]
  rw [hwords] at hcells
  exact eq_of_cells hlisten hbefore (by decide) k.not_listen_prefix_column hcells

/-- A row whose address has no further colon matches the pattern. -/
theorem exists_matchListen (hrow : LsofRow line k) (haddr : ∀ c ∈ k.host.text, isAddrChar c = true)
    (hne : k.host.text ≠ []) :
    ∃ cs, cs <:+ line ∧ matchListen cs = some (k.host.text, Nat.toDigits 10 k.port) := by
  obtain ⟨before, hcells, -⟩ := hrow
  obtain ⟨text, rest₀, rfl, hrest₀⟩ := exists_of_splitBlank_eq_append hcells
  obtain ⟨gap₀, rest₁, rfl, -, -, -, hrest₁, hhead₁⟩ := exists_of_splitBlank_eq_cons hrest₀
  obtain ⟨gap, rest₂, rfl, hgap, hne₁, hword₁, hrest₂, hhead₂⟩ :=
    exists_of_splitBlank_eq_cons hrest₁
  obtain ⟨gap', rest, rfl, hgap', hne₂, hword₂, -, -⟩ := exists_of_splitBlank_eq_cons hrest₂
  have hdigits : ∀ c ∈ Nat.toDigits 10 (k.port : ℕ), isDecimal c = true := fun c hc =>
    isDecimal_of_isDigit (isDigit_of_mem_toDigits hc)
  have heq : "TCP".toList ++ (gap ++ (k.column ++ (gap' ++ ("(LISTEN)".toList ++ rest)))) =
      "TCP".toList ++ (gap ++ (k.host.text ++ ':' :: (Nat.toDigits 10 k.port ++
        (gap' ++ ("(LISTEN)".toList ++ rest))))) := by
    rw [Socket.column, List.append_assoc, List.cons_append]
  refine ⟨_, ⟨text ++ gap₀, List.append_assoc _ _ _⟩, Matches.matchListen
    ⟨heq, gap_ne_nil hne₁ hword₁ hhead₁, hgap, hne, haddr, Nat.toDigits_ne_nil, hdigits,
      gap_ne_nil hne₂ hword₂ hhead₂, hgap'⟩⟩

end Pattern

section Lines

variable {line : List Char} {k : Socket}

def Socket.bindBy (t : Tool) (k : Socket) : Bind := (((k.port : ℕ) : ℤ), k.host.addressBy t)

theorem intDecimal_port (port : Fin 65536) :
    intDecimal (Nat.toDigits 10 port) = some ((port : ℕ) : ℤ) := by
  have hlength : (Nat.toDigits 10 (port : ℕ)).length ≤ maxDecimalDigits := by
    have hfive : (Nat.toDigits 10 (port : ℕ)).length ≤ 5 :=
      (Nat.length_toDigits_le_iff (by omega) (by omega)).mpr (by omega)
    exact hfive.trans (by decide)
  exact intDecimal_toDigits hlength

theorem intOf_port (port : Fin 65536) :
    intOf (Nat.toDigits 10 port) = .ok ((port : ℕ) : ℤ) := by
  rw [intOf, intDecimal_port, Option.elim_some]

theorem dropWhile_bracket {cs : List Char} (h : ∀ c ∈ cs.head?, c ≠ '[' ∧ c ≠ ']') :
    (cs.dropWhile fun c => c == '[' || c == ']') = cs := by
  cases cs with
  | nil => rfl
  | cons c cs =>
    rw [List.dropWhile_cons_of_neg]
    simp [h c rfl]

theorem head_reverse_plain {cs : List Char} (h : ∀ c ∈ cs, c ≠ '[' ∧ c ≠ ']') :
    ∀ c ∈ cs.reverse.head?, c ≠ '[' ∧ c ≠ ']' := fun c hc =>
  h c (List.mem_reverse.mp (List.mem_of_mem_head? hc))

theorem stripBrackets_of_plain {cs : List Char} (h : ∀ c ∈ cs, c ≠ '[' ∧ c ≠ ']') :
    stripBrackets cs = cs := by
  rw [stripBrackets, dropWhile_bracket fun c hc => h c (List.mem_of_mem_head? hc),
    dropWhile_bracket (head_reverse_plain h), List.reverse_reverse]

theorem V6.text_ne_nil (address : V6) : address.text ≠ [] :=
  List.ne_nil_of_mem address.colon

theorem v4_plain (a b c d : Fin 256) (zone : Zone) :
    ∀ x ∈ (Host.v4 a b c d zone).text, x ≠ '[' ∧ x ≠ ']' := by
  intro x hx
  rcases List.mem_append.mp hx with hx | hx
  · rcases mem_dotted hx with hdigit | rfl
    · exact ⟨ne_of_isDigit hdigit (by decide), ne_of_isDigit hdigit (by decide)⟩
    · decide
  · exact (zone.plain x hx).2.2.2

/-- The bracket in front of an IPv6 address is stripped. -/
theorem stripBrackets_v6 (address : V6) (zone : Zone) :
    stripBrackets (Host.v6 address zone).text =
      ((zone.text.reverse ++ ']' :: address.text.reverse).dropWhile fun c =>
        c == '[' || c == ']').reverse := by
  have hbody : ((address.text ++ ']' :: zone.text).dropWhile fun c => c == '[' || c == ']') =
      address.text ++ ']' :: zone.text := by
    apply dropWhile_bracket
    obtain ⟨c, rest, haddress⟩ := List.exists_cons_of_ne_nil address.text_ne_nil
    rw [haddress]
    intro x hx
    cases hx
    exact (address.plain c (by rw [haddress]; exact List.mem_cons_self)).2.2
  have hreverse : (address.text ++ ']' :: zone.text).reverse =
      zone.text.reverse ++ ']' :: address.text.reverse := by simp
  rw [stripBrackets, Host.text, List.dropWhile_cons_of_pos (by rfl), hbody, hreverse]

/-- What `strip` leaves of an address. -/
theorem stripBrackets_host (host : Host) :
    stripBrackets host.text = match host with
      | .wildcard => "*".toList
      | .v4 a b c d zone => (Host.v4 a b c d zone).text
      | .v6 address zone =>
        if zone.text = [] then address.text else address.text ++ ']' :: zone.text := by
  cases host with
  | wildcard => decide
  | v4 a b c d zone => exact stripBrackets_of_plain (v4_plain a b c d zone)
  | v6 address zone =>
    rw [stripBrackets_v6]
    -- at the end, a zone keeps the bracket in
    dsimp only
    split_ifs with hzone
    · have hplain : ∀ c ∈ address.text, c ≠ '[' ∧ c ≠ ']' := fun c hc =>
        (address.plain c hc).2.2
      rw [hzone, List.reverse_nil, List.nil_append, List.dropWhile_cons_of_pos (by rfl),
        dropWhile_bracket (head_reverse_plain hplain), List.reverse_reverse]
    · have hplain : ∀ c ∈ zone.text, c ≠ '[' ∧ c ≠ ']' := fun c hc => (zone.plain c hc).2.2.2
      obtain ⟨c, rest, hrest⟩ := List.exists_cons_of_ne_nil (List.reverse_ne_nil_iff.mpr hzone)
      have hhead : ∀ x ∈ (zone.text.reverse ++ ']' :: address.text.reverse).head?,
          x ≠ '[' ∧ x ≠ ']' := by
        rw [hrest]
        intro x hx
        cases hx
        exact hplain c (List.mem_reverse.mp (by rw [hrest]; exact List.mem_cons_self))
      rw [dropWhile_bracket hhead]
      simp

theorem Host.text_ne_nil (host : Host) : host.text ≠ [] := by
  cases host with
  | wildcard => exact List.cons_ne_nil _ _
  | v4 a b c d zone => simp [Host.text, dotted]
  | v6 address zone => exact List.cons_ne_nil _ _

/-- An address without colons of its own is in the class of the pattern. -/
theorem Host.isAddrChar_of_mem {host : Host} (h : host.isReadBy .lsof = true) :
    ∀ c ∈ host.text, isAddrChar c = true := by
  intro c hc
  have hcolon : c ≠ ':' := by
    cases host with
    | wildcard =>
      rw [List.mem_singleton.mp hc]
      decide
    | v4 o₁ o₂ o₃ o₄ zone =>
      rcases List.mem_append.mp hc with hc | hc
      · rcases mem_dotted hc with hdigit | rfl
        · exact ne_of_isDigit hdigit (by decide)
        · decide
      · exact (zone.plain c hc).2.1
    | v6 address zone => cases h
  simp [isAddrChar, (host.plain c hc).1, hcolon]

theorem colon_notMem_toDigits (n : ℕ) : ':' ∉ Nat.toDigits 10 n := notMem_toDigits (by decide)

theorem of_searchListen {addr port : List Char} (h : LsofRow line k)
    (hfound : searchListen line = some (addr, port)) :
    k.column = addr ++ ':' :: port ∧ ':' ∉ addr ∧ ∀ c ∈ port, isDecimal c = true := by
  obtain ⟨cs, hmem, hmatch⟩ := List.exists_of_findSome?_eq_some hfound
  obtain ⟨gap, gap', rest, hmatches⟩ := exists_matches hmatch
  exact ⟨column_of_matchListen h ((List.mem_tails _ _).mp hmem) hmatch,
    fun hc => ne_colon_of_isAddrChar (hmatches.addr_class _ hc) rfl, hmatches.port_class⟩

/-- On the row of a socket the pattern finds its address and its port. -/
theorem searchListen_row_of_isReadBy (h : LsofRow line k) (hread : k.host.isReadBy .lsof = true) :
    searchListen line = some (k.host.text, Nat.toDigits 10 k.port) := by
  have hclass := Host.isAddrChar_of_mem hread
  obtain ⟨cs, hsuffix, hmatch⟩ := exists_matchListen h hclass k.host.text_ne_nil
  have hsome : (searchListen line).isSome = true :=
    List.findSome?_isSome_iff.mpr ⟨cs, (List.mem_tails _ _).mpr hsuffix, by rw [hmatch]; rfl⟩
  obtain ⟨⟨addr, port⟩, hfound⟩ := Option.isSome_iff_exists.mp hsome
  obtain ⟨hcolumn, haddr, -⟩ := of_searchListen h hfound
  have hhost : ':' ∉ k.host.text := fun hc => ne_colon_of_isAddrChar (hclass _ hc) rfl
  obtain ⟨heq, hport⟩ := (append_sep_inj hhost haddr).mp hcolumn
  rw [hfound, heq, hport]

/-- Behind the first colon of an IPv6 address there is more than a port. -/
theorem searchListen_row_of_not_isReadBy (h : LsofRow line k)
    (hread : k.host.isReadBy .lsof = false) : searchListen line = none := by
  rw [Option.eq_none_iff_forall_ne_some]
  rintro ⟨addr, port⟩ hfound
  obtain ⟨hcolumn, haddr, hport⟩ := of_searchListen h hfound
  rw [Socket.column] at hcolumn
  cases hhost : k.host with
  | wildcard =>
    rw [hhost] at hread
    cases hread
  | v4 a b c d zone =>
    rw [hhost] at hread
    cases hread
  | v6 address zone =>
    obtain ⟨front, back, hsplit, hfront⟩ := List.eq_append_cons_of_mem address.colon
    have hfront' : ':' ∉ '[' :: front := by simp [hfront]
    have hparts : ('[' :: front) ++ ':' :: (back ++ ']' :: zone.text ++
        ':' :: Nat.toDigits 10 k.port) = addr ++ ':' :: port := by
      rw [← hcolumn, hhost, Host.text, hsplit]
      simp
    obtain ⟨-, hback⟩ := (append_sep_inj hfront' haddr).mp hparts
    have hbracket := hport ']' (by rw [← hback]; simp)
    revert hbracket
    decide

theorem dot_mem_v4 (a b c d : Fin 256) (zone : Zone) : '.' ∈ (Host.v4 a b c d zone).text := by
  simp [Host.text, dotted]

theorem colon_mem_stripBrackets (address : V6) (zone : Zone) :
    ':' ∈ stripBrackets (Host.v6 address zone).text := by
  rw [stripBrackets_host]
  dsimp only
  split_ifs
  · exact address.colon
  · exact List.mem_append_left _ address.colon

theorem stripBrackets_host_ne_nil (host : Host) : stripBrackets host.text ≠ [] := by
  cases host with
  | wildcard => decide
  | v4 a b c d zone =>
    rw [stripBrackets_host]
    exact Host.text_ne_nil _
  | v6 address zone => exact List.ne_nil_of_mem (colon_mem_stripBrackets address zone)

/-- The address that lsof and ss give, once the star is replaced. -/
theorem addressBy_eq {t : Tool} (ht : t ≠ .netstat) (host : Host) :
    (if stripBrackets host.text = "*".toList then "0.0.0.0".toList
      else stripBrackets host.text) = host.addressBy t := by
  have hss : host.addressBy t = host.addressBy .ss := by
    cases t with
    | netstat => exact absurd rfl ht
    | lsof => cases host <;> rfl
    | ss => rfl
  rw [hss]
  cases host with
  | wildcard =>
    rw [if_pos (by decide)]
    rfl
  | v4 a b c d zone =>
    have hstrip : stripBrackets (Host.v4 a b c d zone).text = (Host.v4 a b c d zone).text :=
      stripBrackets_host _
    rw [hstrip, if_neg (ne_of_mem_of_not_mem' (dot_mem_v4 a b c d zone) (by decide))]
    rfl
  | v6 address zone =>
    rw [if_neg (ne_of_mem_of_not_mem' (colon_mem_stripBrackets address zone) (by decide)),
      stripBrackets_host]
    rfl

theorem lsofLine_row (h : LsofRow line k) :
    lsofLine line = .ok (if k.host.isReadBy .lsof then [k.bindBy .lsof] else []) := by
  cases hread : k.host.isReadBy .lsof with
  | true =>
    rw [lsofLine, searchListen_row_of_isReadBy h hread]
    dsimp only
    rw [intOf_port, Except.map, addressBy_eq (t := .lsof) (by decide)]
    rfl
  | false =>
    rw [lsofLine, searchListen_row_of_not_isReadBy h hread]
    rfl

/-- A line without the end of the pattern has no match. -/
theorem lsofLine_other (h : LsofOther line) : lsofLine line = .ok [] := by
  have hnone : searchListen line = none := by
    rw [searchListen, List.findSome?_eq_none_iff]
    intro cs hcs
    rw [Option.eq_none_iff_forall_ne_some]
    rintro ⟨addr, port⟩ hmatch
    obtain ⟨gap, gap', rest, hmatches⟩ := exists_matches hmatch
    obtain ⟨text, rfl⟩ := (List.mem_tails _ _).mp hcs
    apply h
    -- a match has the end of the pattern in it
    rw [hmatches.eq]
    exact ⟨text ++ "TCP".toList ++ gap ++ addr ++ ':' :: port ++ gap', rest, by simp⟩
  rw [lsofLine, hnone]

theorem rpartition_column (k : Socket) :
    rpartition ':' k.column = some (k.host.text, Nat.toDigits 10 k.port) :=
  rpartition_append _ (colon_notMem_toDigits _)

theorem isDigitText_toDigits (n : ℕ) : isDigitText (Nat.toDigits 10 n) = true := by
  rw [isDigitText, Bool.and_eq_true]
  constructor
  · simp
  · rw [List.all_eq_true]
    intro c hc
    rw [isDecimal_of_isDigit (isDigit_of_mem_toDigits hc), Bool.true_or]

theorem ssLine_row (h : SsRow line k) : ssLine line = .ok [k.bindBy .ss] := by
  obtain ⟨recvQ, sendQ, peer, users, hcells, -⟩ := h
  simp only [ssLine, hcells, ne_eq, not_true_eq_false, if_false, rpartition_column,
    isDigitText_toDigits, Bool.not_true, Bool.false_eq_true, intOf_port, Except.map]
  simp only [stripBrackets_host_ne_nil, false_or, addressBy_eq (t := .ss) (by decide)]
  rfl

theorem ssLine_other (h : SsOther line) : ssLine line = .ok [] := by
  rw [ssLine]
  split
  next state _ _ _ _ hcells =>
    rw [if_pos]
    intro hstate
    apply h
    rw [hcells, hstate]
    rfl
  · rfl

/-- Two numerals that are followed by something else are compared as a whole. -/
theorem toDigits_append_prefix_iff {m n : ℕ} {c d : Char} {rest : List Char}
    (hc : c.isDigit = false) (hd : d.isDigit = false) :
    Nat.toDigits 10 m ++ [c] <+: Nat.toDigits 10 n ++ d :: rest ↔ m = n ∧ c = d := by
  have hspan : ∀ (i : ℕ) (x : Char) (back : List Char), x.isDigit = false →
      (Nat.toDigits 10 i ++ x :: back).takeWhile Char.isDigit = Nat.toDigits 10 i ∧
        (Nat.toDigits 10 i ++ x :: back).dropWhile Char.isDigit = x :: back := by
    intro i x back hx
    apply span_append _ _ fun y hy => isDigit_of_mem_toDigits hy
    intro y hy
    cases hy
    exact hx
  constructor
  · rintro ⟨back, heq⟩
    rw [List.append_assoc, List.singleton_append] at heq
    obtain ⟨htake, hdrop⟩ := hspan m c back hc
    rw [heq, (hspan n d rest hd).1] at htake
    rw [heq, (hspan n d rest hd).2, List.cons.injEq] at hdrop
    exact ⟨(toDigits_inj.mp htake).symm, hdrop.1.symm⟩
  · rintro ⟨rfl, rfl⟩
    exact ⟨rest, by simp⟩

/-- The text that is looked for: `pid=`, a numeral and the character after it. -/
def ownerText (pid : ℕ) (x : Char) : List Char :=
  "pid".toList ++ '=' :: (Nat.toDigits 10 pid ++ [x])

theorem eq_mem_ownerText (pid : ℕ) (x : Char) : '=' ∈ ownerText pid x :=
  List.mem_append_right _ List.mem_cons_self

theorem ownerText_notWithin {pid : ℕ} {x : Char} {cell : List Char} (h : '=' ∉ cell) :
    ¬ ownerText pid x <:+: cell := fun hwithin => h (hwithin.subset (eq_mem_ownerText pid x))

theorem eq_notMem_toDigits (n : ℕ) : '=' ∉ Nat.toDigits 10 n := notMem_toDigits (by decide)

/-- Where a process is named in the text of a holder, or after it. -/
theorem ownerText_infix_holder_iff {pid : ℕ} {x : Char} (hx : x.isDigit = false) {u : Holder}
    (hname : '=' ∉ u.name) {front back : List Char} (hfront : '=' ∉ front) :
    ownerText pid x <:+: front ++ (u.text ++ back) ↔
      (u.pid = pid ∧ x = ',') ∨
        ownerText pid x <:+: (Nat.toDigits 10 u.fd ++ ")".toList) ++ back := by
  have htext : front ++ (u.text ++ back) =
      (front ++ "(\"".toList ++ u.name ++ "\",pid".toList) ++ '=' :: (
        (Nat.toDigits 10 u.pid ++ ",fd".toList) ++ '=' ::
          ((Nat.toDigits 10 u.fd ++ ")".toList) ++ back)) := by
    simp [Holder.text, pidEq]
  have hsuffix : "pid".toList <:+ front ++ "(\"".toList ++ u.name ++ "\",pid".toList :=
    (by decide : "pid".toList <:+ "\",pid".toList).trans (List.suffix_append _ _)
  -- before the second equality sign stands `fd`
  have hnot : ¬ "pid".toList <:+ Nat.toDigits 10 u.pid ++ ",fd".toList := by
    intro h
    have hfd := List.suffix_of_suffix_length_le h (List.suffix_append _ _) (by decide)
    revert hfd
    decide
  have hprefix : Nat.toDigits 10 pid ++ [x] <+: (Nat.toDigits 10 u.pid ++ ",fd".toList) ++ '=' ::
      ((Nat.toDigits 10 u.fd ++ ")".toList) ++ back) ↔ pid = u.pid ∧ x = ',' := by
    rw [List.append_assoc]
    exact toDigits_append_prefix_iff hx (by decide)
  have hfirst : '=' ∉ front ++ "(\"".toList ++ u.name ++ "\",pid".toList := by
    simp [hfront, hname]
  have hsecond : '=' ∉ Nat.toDigits 10 u.pid ++ ",fd".toList := by simp [eq_notMem_toDigits]
  rw [htext, ownerText, infix_around_iff (by decide) hfirst, infix_around_iff (by decide) hsecond,
    hprefix, and_iff_right hsuffix, eq_comm (a := pid)]
  exact or_congr_right (or_iff_right fun h => hnot h.1)

theorem ownerText_infix_holdersEnd_iff {pid : ℕ} {x : Char} (hx : x.isDigit = false)
    {users : List Holder} (hnames : ∀ u ∈ users, '=' ∉ u.name) {front : List Char}
    (hfront : '=' ∉ front) :
    ownerText pid x <:+: front ++ holdersEnd users ↔ ∃ u ∈ users, u.pid = pid ∧ x = ',' := by
  induction users generalizing front with
  | nil =>
    have hplain : '=' ∉ front ++ holdersEnd [] := by simp [holdersEnd, hfront]
    exact iff_of_false (ownerText_notWithin hplain) fun ⟨_, hu, _⟩ => List.not_mem_nil hu
  | cons u users ih =>
    have htext : front ++ holdersEnd (u :: users) =
        (front ++ ",".toList) ++ (u.text ++ holdersEnd users) := by simp [holdersEnd]
    -- what is left of a holder goes in front of the next one
    have hplain : '=' ∉ Nat.toDigits 10 u.fd ++ ")".toList := by simp [eq_notMem_toDigits]
    have hrest := ih (fun v hv => hnames v (List.mem_cons_of_mem u hv)) hplain
    rw [htext, ownerText_infix_holder_iff hx (hnames u List.mem_cons_self) (by simp [hfront]),
      hrest]
    exact (List.exists_mem_cons_iff (fun v : Holder => v.pid = pid ∧ x = ',') u users).symm

theorem ownerText_infix_holdersText_iff {pid : ℕ} {x : Char} (hx : x.isDigit = false)
    {users : List Holder} (hnames : ∀ u ∈ users, '=' ∉ u.name) :
    ownerText pid x <:+: holdersText users ↔ ∃ u ∈ users, u.pid = pid ∧ x = ',' := by
  cases users with
  | nil =>
    have hempty : '=' ∉ holdersText [] := List.not_mem_nil
    exact iff_of_false (ownerText_notWithin hempty) fun ⟨_, hu, _⟩ => List.not_mem_nil hu
  | cons u users =>
    have hplain : '=' ∉ Nat.toDigits 10 u.fd ++ ")".toList := by simp [eq_notMem_toDigits]
    have hstart : '=' ∉ "users:(".toList := by decide
    have htext : holdersText (u :: users) = "users:(".toList ++ (u.text ++ holdersEnd users) := rfl
    rw [htext, ownerText_infix_holder_iff hx (hnames u List.mem_cons_self) hstart,
      ownerText_infix_holdersEnd_iff hx (fun v hv => hnames v (List.mem_cons_of_mem u hv)) hplain]
    exact (List.exists_mem_cons_iff (fun v : Holder => v.pid = pid ∧ x = ',') u users).symm

/-- The columns before the holders have no equality sign, so the line names the processes of the
row, and no others. -/
theorem ownerText_infix_row_iff (h : SsRow line k) (pid : ℕ) {x : Char}
    (hblank : isBlank x = false) (hx : x.isDigit = false) :
    ownerText pid x <:+: line ↔ pid ∈ k.owners ∧ x = ',' := by
  obtain ⟨recvQ, sendQ, peer, users, hcells, hrecvQ, hsendQ, hpeer, hnames, howners⟩ := h
  have hcolumn : '=' ∉ k.column := fun hc => (k.column_plain '=' hc).2 rfl
  have hne : ownerText pid x ≠ [] := List.ne_nil_of_mem (eq_mem_ownerText pid x)
  have hpid : ∀ c ∈ "pid".toList, isBlank c = false := List.all_iff_forall_prop.mp (by decide)
  have hplain : ∀ c ∈ ownerText pid x, isBlank c = false := by
    intro c hc
    simp only [ownerText, List.mem_append, List.mem_cons, List.not_mem_nil, or_false] at hc
    rcases hc with hc | rfl | hc | rfl
    · exact hpid c hc
    · decide
    · exact isBlank_of_isDigit (isDigit_of_mem_toDigits hc)
    · exact hblank
  have hstate : '=' ∉ "LISTEN".toList := by decide
  -- cell by cell up to the holders, whose text may have blanks and is taken as a whole again
  rw [infix_iff_exists_word hne hplain, hcells, howners]
  simp only [List.exists_mem_cons_iff, ownerText_notWithin hstate, ownerText_notWithin hrecvQ,
    ownerText_notWithin hsendQ, ownerText_notWithin hpeer, ownerText_notWithin hcolumn, false_or]
  rw [← infix_iff_exists_word hne hplain, ownerText_infix_holdersText_iff hx hnames, List.mem_map]
  constructor
  · rintro ⟨u, hu, hpid, hcomma⟩
    exact ⟨⟨u, hu, hpid⟩, hcomma⟩
  · rintro ⟨⟨u, hu, hpid⟩, hcomma⟩
    exact ⟨u, hu, hpid, hcomma⟩

theorem namesPid_row (h : SsRow line k) (pid : ℕ) :
    namesPid pid line = decide (pid ∈ k.owners) := by
  have htext : ∀ x : Char, "pid=".toList ++ strOf pid ++ [x] = ownerText pid x := fun x => by
    simp [ownerText, strOf]
  have hcomma : "pid=".toList ++ strOf pid ++ ",".toList <:+: line ↔ pid ∈ k.owners := by
    have hrow := ownerText_infix_row_iff h pid (by decide : isBlank ',' = false) (by decide)
    rw [← htext] at hrow
    exact hrow.trans (and_iff_left rfl)
  have hparen : ¬ "pid=".toList ++ strOf pid ++ ")".toList <:+: line := by
    have hrow := ownerText_infix_row_iff h pid (by decide : isBlank ')' = false) (by decide)
    rw [← htext] at hrow
    exact fun hwithin => absurd (hrow.mp hwithin).2 (by decide)
  rw [namesPid_eq, decide_eq_decide.mpr hcomma, decide_eq_false hparen, Bool.or_false]

theorem netstatLine_row (h : NetstatRow line k) (pid : ℕ) :
    netstatLine pid line = if pid ∈ k.owners then some (k.bindBy .netstat) else none := by
  obtain ⟨foreign, owner, hcells, howners⟩ := h
  have howner : Nat.toDigits 10 owner = strOf pid ↔ pid = owner :=
    toDigits_inj.trans eq_comm
  simp only [netstatLine, hcells, ne_eq, not_true_eq_false, or_self, if_false, rpartition_column,
    intDecimal_port, Option.map_some, howners, List.mem_singleton, howner, ite_not]
  rfl

theorem netstatLine_other (h : NetstatOther line) (pid : ℕ) : netstatLine pid line = none := by
  rw [netstatLine]
  split
  next tag localAddr foreign state owner rest hcells =>
    rw [if_pos]
    by_contra hboth
    rw [not_or, not_not, not_not] at hboth
    exact h localAddr foreign (owner :: rest) (by rw [hcells, hboth.1, hboth.2])
  · rfl

end Lines

section Outputs

variable {row : List Char → Socket → Prop} {other : List Char → Prop} {output : List Char}
  {lines : List (List Char)} {ks : List Socket}

theorem gather_lists {f : List Char → Except PyError (List Bind)} {p : Socket → Bool}
    {g : Socket → Bind} (h : Lists row other lines ks)
    (hrow : ∀ line ∈ lines, ∀ k, row line k → f line = .ok (if p k then [g k] else []))
    (hother : ∀ line ∈ lines, other line → f line = .ok []) :
    gather f lines = .ok ((ks.filter p).map g) := by
  induction h with
  | nil => rfl
  | @row line k lines ks hline hrest ih =>
    have htail := ih (fun l hl => hrow l (List.mem_cons_of_mem _ hl))
      fun l hl => hother l (List.mem_cons_of_mem _ hl)
    rw [gather, hrow line List.mem_cons_self k hline, htail]
    cases hp : p k <;> simp [Except.map, hp]
  | @other line lines ks hline hrest ih =>
    have htail := ih (fun l hl => hrow l (List.mem_cons_of_mem _ hl))
      fun l hl => hother l (List.mem_cons_of_mem _ hl)
    rw [gather, hother line List.mem_cons_self hline, htail]
    rfl

/-- Of a table of lsof the parser reads the rows without colons in their addresses. -/
theorem parseLsofBinds_eq (h : Lists LsofRow LsofOther (splitLines output) ks) :
    parseLsofBinds output =
      .ok ((ks.filter (·.host.isReadBy .lsof)).map (Socket.bindBy .lsof)) :=
  gather_lists h (fun _ _ _ hrow => lsofLine_row hrow) fun _ _ hother => lsofLine_other hother

/-- A line is parsed as an output of its own. -/
theorem parseSsBinds_line {line : List Char} (h : line ∈ splitLines output) :
    parseSsBinds line = ssLine line := by
  by_cases hne : line = []
  · rw [hne]
    rfl
  · rw [parseSsBinds, splitLines_line hne (isLineBreak_of_mem_splitLines h)]
    simp only [gather, Except.map]
    cases ssLine line with
    | error e => rfl
    | ok found => exact congrArg Except.ok (List.append_nil found)

/-- Of a table of ss the parser reads the rows of the process. -/
theorem ssBindsForPid_eq (h : Lists SsRow SsOther (splitLines output) ks) (pid : ℕ) :
    ssBindsForPid pid output =
      .ok ((ks.filter fun k => pid ∈ k.owners).map (Socket.bindBy .ss)) := by
  apply gather_lists h
  · intro line hline k hrow
    rw [parseSsBinds_line hline, ssLine_row hrow, namesPid_row hrow]
    rfl
  · intro line hline hother
    rw [parseSsBinds_line hline, ssLine_other hother, Except.map, ite_self]

/-- Of a table of netstat the parser reads the rows of the process. -/
theorem parseNetstatWindowsWithBinds_eq
    (h : Lists NetstatRow NetstatOther (splitLines output) ks) (pid : ℕ) :
    parseNetstatWindowsWithBinds output pid =
      (ks.filter fun k => pid ∈ k.owners).map (Socket.bindBy .netstat) := by
  rw [parseNetstatWindowsWithBinds]
  generalize splitLines output = lines at h
  induction h with
  | nil => rfl
  | @row line k lines ks hline hrest ih =>
    rw [List.filterMap_cons, netstatLine_row hline, ih]
    by_cases howned : pid ∈ k.owners <;> simp [howned]
  | other hline hrest ih => rw [List.filterMap_cons, netstatLine_other hline, ih]

end Outputs

end Launcher
