import Mathlib.Data.List.Forall2
import PpssppDfx.Launcher.Tables
import PpssppDfx.Semantics.Occurrence

/-!
# Ports of a process

`_parse_ss_or_netstat_posix` takes a line of ss or netstat for one of a process when the line
has `pid=` and the process id in it, or the process id and a slash. Nothing says that the
numeral in the line ends, or begins, with the one that is looked for, and the name of a process
may have either text in it. So the parser also returns ports of other processes.

## Main definitions

* `Launcher.parseSsOrNetstatPosix` — the parser
* `Launcher.Listener` — what a line says: a port and who listens on it
* `Launcher.Prints` — an output of lines that say so
* `Launcher.Process.MistakenFor` — a line that is taken for one of a process

## Main results

* `parseSsOrNetstatPosix_eq_iff` — when the ports of a process are found
-/

set_option autoImplicit false

namespace Launcher

open Python Semantics

/-! ## The parser -/

/-- `f"{pid}/"`. -/
def pidSlash (pid : ℕ) : List Char := Nat.toDigits 10 pid ++ ['/']

/-- The text names the process, as far as the parser looks. -/
def Mentions (pid : ℕ) (text : List Char) : Prop := pidEq pid <:+: text ∨ pidSlash pid <:+: text

instance (pid : ℕ) : DecidablePred (Mentions pid) := fun text =>
  inferInstanceAs (Decidable (pidEq pid <:+: text ∨ pidSlash pid <:+: text))

/-- The port that a line adds. -/
def portOfLine (pid : ℕ) (line : List Char) : Option ℤ :=
  if Mentions pid line then
    -- in both formats the local address stands in the fourth column
    match (splitBlank line)[3]? with
    | none => none
    | some localAddr => (rpartition ':' localAddr).bind fun parts => intDecimal parts.2
  else none

/-- `_parse_ss_or_netstat_posix`. -/
def parseSsOrNetstatPosix (output : List Char) (pid : ℕ) : List ℤ :=
  (splitLines output).filterMap (portOfLine pid)

/-! ## Lines -/

/-- A column without blanks, equality signs and slashes. -/
structure Cell where
  text : List Char
  plain : ∀ c ∈ text, isBlank c = false ∧ c ≠ '=' ∧ c ≠ '/'

/-- The text of a holder has the process id that is looked for. -/
def Holder.Suggests (pid : ℕ) (u : Holder) : Prop :=
  Nat.toDigits 10 pid <+: Nat.toDigits 10 u.pid ∨ Mentions pid u.name

instance (pid : ℕ) : DecidablePred (Holder.Suggests pid) := fun u => inferInstanceAs (Decidable
  (Nat.toDigits 10 pid <+: Nat.toDigits 10 u.pid ∨ Mentions pid u.name))

/-- The column of the processes: `users:((...),(...))` of ss, which is empty where ss may not
tell, and `1234/name` or `-` of netstat. -/
inductive Process where
  | ss (holders : List Holder)
  | netstat (program : Option (ℕ × List Char))

namespace Process

def text : Process → List Char
  | ss holders => holdersText holders
  | netstat none => ['-']
  | netstat (some (owner, name)) => Nat.toDigits 10 owner ++ '/' :: name

def owners : Process → List ℕ
  | ss holders => holders.map Holder.pid
  | netstat program => (program.map Prod.fst).toList

/-- What the column says about a process, as far as the parser looks: a numeral of the owners
begins (in ss) or ends (in netstat) with the one of the process, or a name mentions it. -/
def Suggests (pid : ℕ) : Process → Prop
  | ss holders => ∃ u ∈ holders, u.Suggests pid
  | netstat none => False
  | netstat (some (owner, name)) =>
    Nat.toDigits 10 pid <:+ Nat.toDigits 10 owner ∨ Mentions pid name

instance (pid : ℕ) : DecidablePred (Suggests pid) := fun process =>
  match process with
  | ss holders => inferInstanceAs (Decidable (∃ u ∈ holders, u.Suggests pid))
  | netstat none => inferInstanceAs (Decidable False)
  | netstat (some (owner, name)) => inferInstanceAs (Decidable
      (Nat.toDigits 10 pid <:+ Nat.toDigits 10 owner ∨ Mentions pid name))

/-- The line is one of other processes and is taken for one of this process. -/
def MistakenFor (pid : ℕ) (process : Process) : Prop :=
  pid ∉ process.owners ∧ process.Suggests pid

end Process

/-- A listening line: its local address, the port and the column of the processes. -/
structure Listener where
  address : Cell
  port : Fin 65536
  process : Process

namespace Listener

variable (l : Listener)

def column : List Char := l.address.text ++ ':' :: Nat.toDigits 10 l.port

/-- `LISTEN 0 4096 127.0.0.1:9490 0.0.0.0:* users:((...))` of ss, or
`tcp 0 0 127.0.0.1:9490 0.0.0.0:* LISTEN 1234/name` of netstat. -/
def Shows (line : List Char) : Prop :=
  match l.process with
  | .ss _ => ∃ recvQ sendQ peer : Cell, splitBlank line =
      "LISTEN".toList :: recvQ.text :: sendQ.text :: l.column :: peer.text ::
        splitBlank l.process.text
  | .netstat _ => ∃ proto recvQ sendQ foreign : Cell, splitBlank line =
      proto.text :: recvQ.text :: sendQ.text :: l.column :: foreign.text :: "LISTEN".toList ::
        splitBlank l.process.text

end Listener

/-- A line that is no row, such as a heading: it mentions no process. -/
def OtherLine (line : List Char) : Prop := ∀ pid, ¬ Mentions pid line

/-- The lines of an output with the rows among them. -/
def Prints (output : List Char) (rows : List (Option Listener)) : Prop :=
  List.Forall₂ (fun line row => row.elim (OtherLine line) fun l => l.Shows line)
    (splitLines output) rows

/-- The ports of the lines that the process owns. -/
def portsOf (pid : ℕ) (rows : List (Option Listener)) : List ℤ :=
  rows.filterMap fun row => row.bind fun l =>
    if pid ∈ l.process.owners then some ((l.port : ℕ) : ℤ) else none

/-! ## What a line mentions -/

variable {pid : ℕ} {needle text rest line : List Char} {l : Listener}

theorem slash_notMem_toDigits (n : ℕ) : '/' ∉ Nat.toDigits 10 n := notMem_toDigits (by decide)

theorem not_infix_of_notMem {c : Char} (hc : c ∈ needle) (h : c ∉ text) : ¬ needle <:+: text :=
  fun hwithin => h (hwithin.subset hc)

theorem mem_pidEq {c : Char} (h : c ∈ pidEq pid) : c.isDigit = true ∨ c ∈ "pid=".toList := by
  simp only [pidEq, List.mem_append, List.mem_cons] at h
  rcases h with h | rfl | h
  · exact Or.inr (List.mem_append_left ['='] h)
  · exact Or.inr (by decide)
  · exact Or.inl (isDigit_of_mem_toDigits h)

theorem mem_pidSlash {c : Char} (h : c ∈ pidSlash pid) : c.isDigit = true ∨ c = '/' := by
  rcases List.mem_append.mp h with h | h
  · exact Or.inl (isDigit_of_mem_toDigits h)
  · exact Or.inr (List.mem_singleton.mp h)

theorem notMem_pidEq {c : Char} (hdigit : c.isDigit = false) (hc : c ∉ "pid=".toList) :
    c ∉ pidEq pid := by
  intro h
  rcases mem_pidEq h with h | h
  · rw [hdigit] at h
    cases h
  · exact hc h

theorem notMem_pidSlash {c : Char} (hdigit : c.isDigit = false) (hc : c ≠ '/') :
    c ∉ pidSlash pid := by
  intro h
  rcases mem_pidSlash h with h | h
  · rw [hdigit] at h
    cases h
  · exact hc h

theorem eq_mem_pidEq (pid : ℕ) : '=' ∈ pidEq pid := List.mem_append_right _ List.mem_cons_self

theorem slash_mem_pidSlash (pid : ℕ) : '/' ∈ pidSlash pid :=
  List.mem_append_right _ List.mem_cons_self

/-- A text without equality signs and slashes mentions no process. -/
theorem not_mentions (heq : '=' ∉ text) (hslash : '/' ∉ text) : ¬ Mentions pid text := by
  rintro (h | h)
  · exact not_infix_of_notMem (eq_mem_pidEq pid) heq h
  · exact not_infix_of_notMem (slash_mem_pidSlash pid) hslash h

/-- A character that is in neither text that is looked for parts a text in two. -/
theorem mentions_append_cons_iff {c : Char} (hdigit : c.isDigit = false)
    (hc : c ∉ "pid=/".toList) :
    Mentions pid (text ++ c :: rest) ↔ Mentions pid text ∨ Mentions pid rest := by
  have heq : c ∉ pidEq pid := notMem_pidEq hdigit fun h => hc (List.mem_append_left ['/'] h)
  have hslash : c ∉ pidSlash pid := notMem_pidSlash hdigit fun h => hc (h ▸ by decide)
  rw [Mentions, Mentions, Mentions, infix_append_cons_iff heq, infix_append_cons_iff hslash]
  tauto

/-- A numeral after `pid=` is taken for one that it begins with. -/
theorem mentions_pidEq_iff (n : ℕ) :
    Mentions pid (pidEq n) ↔ Nat.toDigits 10 pid <+: Nat.toDigits 10 n := by
  have hslash : ¬ pidSlash pid <:+: pidEq n :=
    not_infix_of_notMem (slash_mem_pidSlash pid) (notMem_pidEq (by decide) (by decide))
  have hdigits : ¬ "pid".toList ++ '=' :: Nat.toDigits 10 pid <:+: Nat.toDigits 10 n :=
    not_infix_of_notMem (eq_mem_pidEq pid) (eq_notMem_toDigits n)
  rw [Mentions, or_iff_left hslash, pidEq, pidEq, infix_around_iff (by decide) (by decide),
    or_iff_left hdigits, and_iff_right List.suffix_rfl]

/-- A numeral before a slash is taken for one that it ends with. -/
theorem mentions_program_iff (owner : ℕ) (name : List Char) :
    Mentions pid (Nat.toDigits 10 owner ++ '/' :: name) ↔
      Nat.toDigits 10 pid <:+ Nat.toDigits 10 owner ∨ Mentions pid name := by
  have hdigits : ¬ pidEq pid <:+: Nat.toDigits 10 owner :=
    not_infix_of_notMem (eq_mem_pidEq pid) (eq_notMem_toDigits owner)
  have heq : pidEq pid <:+: Nat.toDigits 10 owner ++ '/' :: name ↔ pidEq pid <:+: name := by
    rw [infix_append_cons_iff (notMem_pidEq (by decide) (by decide)), or_iff_right hdigits]
  have hslash : pidSlash pid <:+: Nat.toDigits 10 owner ++ '/' :: name ↔
      Nat.toDigits 10 pid <:+ Nat.toDigits 10 owner ∨ pidSlash pid <:+: name := by
    rw [pidSlash, infix_around_iff (slash_notMem_toDigits pid) (slash_notMem_toDigits owner),
      and_iff_left List.nil_prefix]
  rw [Mentions, Mentions, heq, hslash]
  tauto

theorem mentions_holder_append_iff (u : Holder) :
    Mentions pid (u.text ++ rest) ↔ u.Suggests pid ∨ Mentions pid rest := by
  have htext : u.text ++ rest = "(".toList ++ '"' :: (u.name ++ '"' :: ([] ++ ',' :: (pidEq u.pid ++
      ',' :: (("fd=".toList ++ Nat.toDigits 10 u.fd) ++ ')' :: rest)))) := by
    simp [Holder.text]
  have hopen : ¬ Mentions pid "(".toList := not_mentions (by decide) (by decide)
  have hempty : ¬ Mentions pid [] := not_mentions List.not_mem_nil List.not_mem_nil
  -- `fd=` is not `pid=`
  have hfd : ¬ Mentions pid ("fd=".toList ++ Nat.toDigits 10 u.fd) := by
    rintro (h | h)
    · have hp : 'p' ∈ pidEq pid := List.mem_append_left _ List.mem_cons_self
      refine not_infix_of_notMem hp ?_ h
      rw [List.mem_append, not_or]
      exact ⟨by decide, notMem_toDigits (by decide)⟩
    · refine not_infix_of_notMem (slash_mem_pidSlash pid) ?_ h
      rw [List.mem_append, not_or]
      exact ⟨by decide, slash_notMem_toDigits u.fd⟩
  have hquote : '"' ∉ "pid=/".toList := by decide
  have hcomma : ',' ∉ "pid=/".toList := by decide
  have hparen : ')' ∉ "pid=/".toList := by decide
  rw [htext, mentions_append_cons_iff rfl hquote, mentions_append_cons_iff rfl hquote,
    mentions_append_cons_iff rfl hcomma, mentions_append_cons_iff rfl hcomma,
    mentions_append_cons_iff rfl hparen, mentions_pidEq_iff, Holder.Suggests]
  tauto

theorem mentions_holdersEnd_iff (users : List Holder) :
    Mentions pid (holdersEnd users) ↔ ∃ u ∈ users, u.Suggests pid := by
  induction users with
  | nil =>
    have hend : ¬ Mentions pid (holdersEnd []) := not_mentions (by decide) (by decide)
    exact iff_of_false hend fun ⟨_, hu, _⟩ => List.not_mem_nil hu
  | cons u users ih =>
    have hcomma : ',' ∉ "pid=/".toList := by decide
    have hempty : ¬ Mentions pid [] := not_mentions List.not_mem_nil List.not_mem_nil
    rw [holdersEnd, ← List.nil_append (',' :: _), mentions_append_cons_iff rfl hcomma,
      or_iff_right hempty, mentions_holder_append_iff, ih, List.exists_mem_cons_iff]

/-- What the column of the processes mentions. -/
theorem mentions_process_iff (process : Process) :
    Mentions pid process.text ↔ process.Suggests pid := by
  match process with
  | .ss [] =>
    have hempty : ¬ Mentions pid (Process.ss []).text :=
      not_mentions List.not_mem_nil List.not_mem_nil
    exact iff_of_false hempty fun ⟨_, hu, _⟩ => List.not_mem_nil hu
  | .ss (u :: users) =>
    have hparen : '(' ∉ "pid=/".toList := by decide
    have hstart : ¬ Mentions pid "users:".toList := not_mentions (by decide) (by decide)
    have htext : (Process.ss (u :: users)).text =
        "users:".toList ++ '(' :: (u.text ++ holdersEnd users) := rfl
    rw [htext, mentions_append_cons_iff rfl hparen, or_iff_right hstart,
      mentions_holder_append_iff, mentions_holdersEnd_iff, ← List.exists_mem_cons_iff]
    exact Iff.rfl
  | .netstat none => exact iff_of_false (not_mentions (by decide) (by decide)) id
  | .netstat (some (owner, name)) => exact mentions_program_iff owner name

/-- A process that owns the line is mentioned. -/
theorem Process.suggests_of_mem_owners {process : Process} (h : pid ∈ process.owners) :
    process.Suggests pid := by
  match process with
  | .ss holders =>
    obtain ⟨u, hu, rfl⟩ := List.mem_map.mp h
    exact ⟨u, hu, Or.inl (List.prefix_refl _)⟩
  | .netstat none => cases h
  | .netstat (some (owner, name)) =>
    rw [List.mem_singleton.mp h]
    exact Or.inl (List.suffix_refl _)

/-! ## Rows -/

/-- A process is mentioned in a line if it is in one of its words. -/
theorem mentions_iff_exists_word (line : List Char) :
    Mentions pid line ↔ ∃ w ∈ splitBlank line, Mentions pid w := by
  have hplain : ∀ c ∈ "pid=".toList, isBlank c = false := List.all_iff_forall_prop.mp (by decide)
  have heq : ∀ c ∈ pidEq pid, isBlank c = false := by
    intro c hc
    rcases mem_pidEq hc with h | h
    · exact isBlank_of_isDigit h
    · exact hplain c h
  have hslash : ∀ c ∈ pidSlash pid, isBlank c = false := by
    intro c hc
    rcases mem_pidSlash hc with h | rfl
    · exact isBlank_of_isDigit h
    · decide
  rw [Mentions, infix_iff_exists_word (List.ne_nil_of_mem (eq_mem_pidEq pid)) heq,
    infix_iff_exists_word (List.ne_nil_of_mem (slash_mem_pidSlash pid)) hslash, ← exists_or]
  exact exists_congr fun w => and_or_left.symm

theorem Cell.not_mentions (cell : Cell) : ¬ Mentions pid cell.text :=
  Launcher.not_mentions (fun h => (cell.plain _ h).2.1 rfl) fun h => (cell.plain _ h).2.2 rfl

theorem Listener.not_mentions_column (l : Listener) : ¬ Mentions pid l.column := by
  have hport : ¬ Mentions pid (Nat.toDigits 10 (l.port : ℕ)) :=
    not_mentions (eq_notMem_toDigits _) (slash_notMem_toDigits _)
  rw [Listener.column, mentions_append_cons_iff rfl (by decide)]
  exact not_or.mpr ⟨l.address.not_mentions, hport⟩

/-- A row mentions what its column of the processes does. -/
theorem Listener.Shows.mentions_iff (h : l.Shows line) :
    Mentions pid line ↔ l.process.Suggests pid := by
  have hlisten : ¬ Mentions pid "LISTEN".toList := not_mentions (by decide) (by decide)
  rw [← mentions_process_iff, mentions_iff_exists_word line,
    mentions_iff_exists_word l.process.text]
  unfold Listener.Shows at h
  split at h
  · obtain ⟨recvQ, sendQ, peer, hcells⟩ := h
    simp only [hcells, List.exists_mem_cons_iff, hlisten, recvQ.not_mentions, sendQ.not_mentions,
      peer.not_mentions, l.not_mentions_column, false_or]
  · obtain ⟨proto, recvQ, sendQ, foreign, hcells⟩ := h
    simp only [hcells, List.exists_mem_cons_iff, hlisten, proto.not_mentions, recvQ.not_mentions,
      sendQ.not_mentions, foreign.not_mentions, l.not_mentions_column, false_or]

/-- In both formats the column of the local address is the fourth. -/
theorem Listener.Shows.fourth (h : l.Shows line) : (splitBlank line)[3]? = some l.column := by
  unfold Listener.Shows at h
  split at h
  · obtain ⟨recvQ, sendQ, peer, hcells⟩ := h
    rw [hcells]
    rfl
  · obtain ⟨proto, recvQ, sendQ, foreign, hcells⟩ := h
    rw [hcells]
    rfl

theorem Listener.Shows.portOfLine (h : l.Shows line) :
    portOfLine pid line = if l.process.Suggests pid then some ((l.port : ℕ) : ℤ) else none := by
  have hport : rpartition ':' l.column = some (l.address.text, Nat.toDigits 10 l.port) :=
    rpartition_append _ (colon_notMem_toDigits _)
  rw [Launcher.portOfLine, h.fourth]
  simp only [hport, Option.bind_some, intDecimal_port, h.mentions_iff]

/-! ## Outputs -/

/-- The ports of the lines that mention the process. -/
def suggestedPorts (pid : ℕ) (rows : List (Option Listener)) : List ℤ :=
  rows.filterMap fun row => row.bind fun l =>
    if l.process.Suggests pid then some ((l.port : ℕ) : ℤ) else none

theorem parseSsOrNetstatPosix_eq (pid : ℕ) {output : List Char} {rows : List (Option Listener)}
    (h : Prints output rows) : parseSsOrNetstatPosix output pid = suggestedPorts pid rows := by
  rw [parseSsOrNetstatPosix, suggestedPorts]
  unfold Prints at h
  generalize splitLines output = lines at h ⊢
  induction h with
  | nil => rfl
  | @cons line row lines rows hrow _ ih =>
    have hline : portOfLine pid line = row.bind fun l =>
        if l.process.Suggests pid then some ((l.port : ℕ) : ℤ) else none := by
      cases row with
      -- no row, no process
      | none => exact if_neg (hrow pid)
      | some l => exact Listener.Shows.portOfLine hrow
    rw [List.filterMap_cons, List.filterMap_cons, hline, ih]

/-- The parser returns the ports of the lines that the process owns if no line of other processes
is taken for one of it. -/
theorem parseSsOrNetstatPosix_eq_iff (pid : ℕ) (output : List Char) (rows : List (Option Listener))
    (h : Prints output rows) :
    parseSsOrNetstatPosix output pid = portsOf pid rows ↔
      ∀ l, some l ∈ rows → ¬ l.process.MistakenFor pid := by
  rw [parseSsOrNetstatPosix_eq pid h, suggestedPorts, portsOf, filterMap_eq_iff]
  · constructor
    · rintro heq l hl ⟨hother, hsuggests⟩
      have hport := heq (some l) hl
      rw [Option.bind_some, Option.bind_some, if_pos hsuggests, if_neg hother] at hport
      cases hport
    · rintro hrows (_ | l) hl
      · rfl
      · have hiff : l.process.Suggests pid ↔ pid ∈ l.process.owners := by
          refine ⟨fun hsuggests => ?_, Process.suggests_of_mem_owners⟩
          by_contra hother
          exact hrows l hl ⟨hother, hsuggests⟩
        simp only [Option.bind_some, hiff]
  · rintro (_ | l) - port hport
    · cases hport
    · rw [Option.bind_some] at hport ⊢
      split_ifs at hport with howns
      rw [if_pos (Process.suggests_of_mem_owners howns), hport]

/-! ## Outputs of ss -/

/-- The heading of ss. -/
def ssHeading : List Char :=
  "State Recv-Q Send-Q Local Address:Port Peer Address:Port Process".toList

/-- A line of ss for a socket on the loopback address that one process holds. -/
def heldLine (pid : ℕ) : List Char :=
  "LISTEN 0 4096 127.0.0.1:9490 0.0.0.0:* ".toList ++ (Process.ss [⟨"ppsspp".toList, pid, 10⟩]).text

def heldListener (pid : ℕ) : Listener where
  address := ⟨"127.0.0.1".toList, List.all_iff_forall_prop.mp (by decide)⟩
  port := ⟨9490, by decide⟩
  process := .ss [⟨"ppsspp".toList, pid, 10⟩]

theorem prints_heldLine :
    Prints (ssHeading ++ '\n' :: heldLine 1234) [none, some (heldListener 1234)] := by
  have hlines : splitLines (ssHeading ++ '\n' :: heldLine 1234) = [ssHeading, heldLine 1234] := by
    decide
  have hheading : OtherLine ssHeading := fun pid => not_mentions (by decide) (by decide)
  have hcells : splitBlank (heldLine 1234) = "LISTEN".toList :: "0".toList :: "4096".toList ::
      (heldListener 1234).column :: "0.0.0.0:*".toList ::
        splitBlank (heldListener 1234).process.text := by decide
  have hzero : ∀ c ∈ "0".toList, isBlank c = false ∧ c ≠ '=' ∧ c ≠ '/' :=
    List.all_iff_forall_prop.mp (by decide)
  have hcount : ∀ c ∈ "4096".toList, isBlank c = false ∧ c ≠ '=' ∧ c ≠ '/' :=
    List.all_iff_forall_prop.mp (by decide)
  have hpeer : ∀ c ∈ "0.0.0.0:*".toList, isBlank c = false ∧ c ≠ '=' ∧ c ≠ '/' :=
    List.all_iff_forall_prop.mp (by decide)
  have hshows : (heldListener 1234).Shows (heldLine 1234) :=
    ⟨⟨_, hzero⟩, ⟨_, hcount⟩, ⟨_, hpeer⟩, hcells⟩
  rw [Prints, hlines]
  exact .cons hheading (.cons hshows .nil)

theorem parseSsOrNetstatPosix_heldLine :
    parseSsOrNetstatPosix (ssHeading ++ '\n' :: heldLine 1234) 1234 =
        portsOf 1234 [none, some (heldListener 1234)] ↔
      ∀ l, some l ∈ [none, some (heldListener 1234)] → ¬ l.process.MistakenFor 1234 :=
  parseSsOrNetstatPosix_eq_iff 1234 _ _ prints_heldLine

/-- A process whose id the owner's begins with gets the port of the owner. -/
theorem not_attributed_heldLine :
    ¬ ∀ (pid : ℕ) (output : List Char) (rows : List (Option Listener)), Prints output rows →
      parseSsOrNetstatPosix output pid = portsOf pid rows := by
  intro h
  have hports : parseSsOrNetstatPosix (ssHeading ++ '\n' :: heldLine 1234) 123 =
      portsOf 123 [none, some (heldListener 1234)] := h 123 _ _ prints_heldLine
  revert hports
  decide

end Launcher
