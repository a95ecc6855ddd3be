import Mathlib.Data.List.Infix
import PpssppDfx.Python.Text

/-!
# The exposure check of the launcher

The debugger of the emulator has no authentication, so the launcher asks a system tool on which
addresses the emulator listens: netstat on Windows, elsewhere lsof, and ss where lsof is missing
or names no bind. Each tool prints a table in a layout of its own.

## Main definitions

* `Launcher.parseNetstatWindowsWithBinds`, `Launcher.parseLsofBinds`, `Launcher.parseSsBinds` —
  the parsers of the three tables
* `Launcher.warnIfDebuggerExposedExternally` — the check
-/

set_option autoImplicit false

namespace Launcher

open Python

/-- A port and the address that it is bound to. -/
abbrev Bind := ℤ × List Char

inductive PyError where
  | valueError

/-- `str(n)`. -/
def strOf : ℤ → List Char
  | .ofNat n => Nat.toDigits 10 n
  | .negSucc n => '-' :: Nat.toDigits 10 (n + 1)

/-- `int(text)` where nothing catches the error. -/
def intOf (cs : List Char) : Except PyError ℤ :=
  (intDecimal cs).elim (.error .valueError) .ok

/-- A loop that appends to a list, until something in it raises. -/
def gather {α β : Type} (f : α → Except PyError (List β)) : List α → Except PyError (List β)
  | [] => .ok []
  | a :: rest =>
    match f a with
    | .error e => .error e
    | .ok found => (gather f rest).map (found ++ ·)

/-- `text.strip("[]")`. -/
def stripBrackets (cs : List Char) : List Char :=
  ((cs.dropWhile fun c => c == '[' || c == ']').reverse.dropWhile fun c =>
    c == '[' || c == ']').reverse

section Netstat

def netstatLine (pid : ℤ) (line : List Char) : Option Bind :=
  match splitBlank line with
  | tag :: localAddr :: _ :: state :: owner :: _ =>
    if tag ≠ "TCP".toList ∨ state ≠ "LISTENING".toList then none
    else if owner ≠ strOf pid then none
    else
      match rpartition ':' localAddr with
      | none => none
      | some (bindIp, portStr) => (intDecimal portStr).map fun port => (port, bindIp)
  | _ => none

/-- `_parse_netstat_windows_with_binds`. -/
def parseNetstatWindowsWithBinds (output : List Char) (pid : ℤ) : List Bind :=
  (splitLines output).filterMap (netstatLine pid)

end Netstat

section Lsof

/-- `[^\s:]`. -/
def isAddrChar (c : Char) : Bool := !isBlank c && c != ':'

/-- A match of the pattern `TCP\s+(\[?[^\s:]+\]?|\*):(\d+)\s+\(LISTEN\)` at the start of a text,
with its groups. No class of it can take a character that the next one needs, so the longest
stretches decide; and the brackets and the star of the first group are in its class. -/
def matchListen : List Char → Option (List Char × List Char)
  | 'T' :: 'C' :: 'P' :: rest =>
    let fromAddr := rest.dropWhile isBlank
    let addr := fromAddr.takeWhile isAddrChar
    match fromAddr.dropWhile isAddrChar with
    | ':' :: fromPort =>
      let port := fromPort.takeWhile isDecimal
      let afterPort := fromPort.dropWhile isDecimal
      if rest.takeWhile isBlank ≠ [] ∧ addr ≠ [] ∧ port ≠ [] ∧ afterPort.takeWhile isBlank ≠ [] ∧
          "(LISTEN)".toList <+: afterPort.dropWhile isBlank then
        some (addr, port)
      else none
    | _ => none
  | _ => none

/-- `pat.search(line)`. -/
def searchListen (line : List Char) : Option (List Char × List Char) :=
  line.tails.findSome? matchListen

def lsofLine (line : List Char) : Except PyError (List Bind) :=
  match searchListen line with
  | none => .ok []
  | some (host, port) =>
    let addr := stripBrackets host
    (intOf port).map fun n => [(n, if addr = "*".toList then "0.0.0.0".toList else addr)]

/-- `_parse_lsof_binds`. -/
def parseLsofBinds (output : List Char) : Except PyError (List Bind) :=
  gather lsofLine (splitLines output)

end Lsof

section Ss

def ssLine (line : List Char) : Except PyError (List Bind) :=
  match splitBlank line with
  | state :: _ :: _ :: localAddr :: _ =>
    if state ≠ "LISTEN".toList then .ok []
    else
      -- without a colon the whole column is tested for digits, and then the colon is missed
      match rpartition ':' localAddr with
      | none => if isDigitText localAddr then .error .valueError else .ok []
      | some (host, port) =>
        if !isDigitText port then .ok []
        else
          let addr := stripBrackets host
          (intOf port).map fun n =>
            [(n, if addr = [] ∨ addr = "*".toList then "0.0.0.0".toList else addr)]
  | _ => .ok []

/-- `_parse_ss_binds`. -/
def parseSsBinds (output : List Char) : Except PyError (List Bind) :=
  gather ssLine (splitLines output)

/-- The line names the process, as ss does when it may. -/
def namesPid (pid : ℤ) (line : List Char) : Bool :=
  decide ("pid=".toList ++ strOf pid ++ ",".toList <:+: line) ||
    decide ("pid=".toList ++ strOf pid ++ ")".toList <:+: line)

theorem namesPid_eq (pid : ℤ) (line : List Char) :
    namesPid pid line = (decide ("pid=".toList ++ strOf pid ++ ",".toList <:+: line) ||
      decide ("pid=".toList ++ strOf pid ++ ")".toList <:+: line)) := rfl

/-- The parser of the second command, which leaves out the binds of other processes. -/
def ssBindsForPid (pid : ℤ) (output : List Char) : Except PyError (List Bind) :=
  gather (fun line => (parseSsBinds line).map fun binds => if namesPid pid line then binds else [])
    (splitLines output)

end Ss

section Check

/-- What the tools have printed. A tool that is missing, fails or takes too long prints
nothing. -/
inductive ProbeOutput where
  | win32 (netstat : Option (List Char))
  | posix (lsof ss : Option (List Char))

def getListeningBindsForPidWindows (netstat : Option (List Char)) (pid : ℤ) : List Bind :=
  match netstat with
  | none => []
  | some output => parseNetstatWindowsWithBinds output pid

/-- The loop over the commands: the first one that names a bind decides. -/
def firstBinds : List (Option (Except PyError (List Bind))) → Except PyError (Option (List Bind))
  | [] => .ok none
  | none :: rest => firstBinds rest
  | some (.error e) :: _ => .error e
  | some (.ok []) :: rest => firstBinds rest
  | some (.ok (bind :: binds)) :: _ => .ok (some (bind :: binds))

def getListeningBindsForPidPosix (lsof ss : Option (List Char)) (pid : ℤ) :
    Except PyError (Option (List Bind)) :=
  firstBinds [lsof.map parseLsofBinds, ss.map (ssBindsForPid pid)]

inductive Warning where
  | unavailable
  | exposed (port : ℤ) (address : List Char)

/-- The loop over the binds. It returns at the first bind of the port, whatever its address. -/
def reportBinds (port : ℤ) : List Bind → Bool × Option Warning
  | [] => (false, none)
  | (bport, bip) :: rest =>
    if bport ≠ port then reportBinds port rest
    else if bip ≠ "127.0.0.1".toList ∧ bip ≠ "::1".toList then (true, some (.exposed port bip))
    else (false, none)

def warnIfDebuggerExposedExternally (outputs : ProbeOutput) (pid port : ℤ) :
    Except PyError (Bool × Option Warning) :=
  if pid ≤ 0 then .ok (false, none)
  else
    match outputs with
    | .win32 netstat => .ok (reportBinds port (getListeningBindsForPidWindows netstat pid))
    | .posix lsof ss =>
      match getListeningBindsForPidPosix lsof ss pid with
      | .error e => .error e
      | .ok none => .ok (false, some .unavailable)
      | .ok (some binds) => .ok (reportBinds port binds)

end Check

end Launcher
