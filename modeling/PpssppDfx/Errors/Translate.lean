import PpssppDfx.Observer.Dispatcher
import PpssppDfx.Python.Text
import PpssppDfx.Python.Value

/-!
# Errors for the client

Every exception of a tool reaches the client as a `ToolError`: a code and a text. A timeout is
judged by whether the emulator process is alive and by the tracked state of the game, other
exceptions by their class and their words. Paths of the host must not be among these words.

The Unicode tables of Python are parameters: which characters are word characters, and the
lower-case form of a text.

## Main definitions

* `Errors.hasPath` — `_ABSOLUTE_PATH_RE.search()`
* `Errors.toToolError` — the translation of an exception

## Main results

* `Errors.pathFrom_append` — a text and a hint that is set off by a blank make no new path
* `Errors.no_path_in_toToolError` — what the client is told contains no absolute path
-/

set_option autoImplicit false

namespace Errors

open Python Broadcasts

/-! ## Absolute paths -/

def isAsciiLetter (c : Char) : Bool := ('A' ≤ c && c ≤ 'Z') || ('a' ≤ c && c ≤ 'z')

def isAsciiAlnum (c : Char) : Bool := isAsciiLetter c || ('0' ≤ c && c ≤ '9')

def isSlash (c : Char) : Bool := c == '/'

def isAnySlash (c : Char) : Bool := c == '/' || c == Char.ofNat 92

/-- One or more characters of a part of a path, and then a separator. -/
def followed (separator : Char → Bool) (cs : List Char) : Bool :=
  let inside (c : Char) : Bool := !separator c && !isBlank c
  !(cs.takeWhile inside).isEmpty && (cs.dropWhile inside).head?.any separator

/-- The root of a drive, not after a letter or a digit. -/
def isDrive (before : Option Char) : List Char → Bool
  | c :: colon :: slash :: _ =>
    !before.any isAsciiAlnum && isAsciiLetter c && colon == ':' && isAnySlash slash
  | _ => false

/-- A server and the separator after it. -/
def isUnc : List Char → Bool
  | c :: d :: rest => c == Char.ofNat 92 && d == Char.ofNat 92 && followed isAnySlash rest
  | _ => false

/-- A directory below the root, not after a word character or a slash. -/
def isPosix (isWord : Char → Bool) (before : Option Char) : List Char → Bool
  | c :: rest =>
    isSlash c && !before.any (fun b => isWord b || isSlash b) && followed isSlash rest
  | _ => false

/-- The pattern `_ABSOLUTE_PATH_RE` matches here. -/
def isPath (isWord : Char → Bool) (before : Option Char) (cs : List Char) : Bool :=
  isDrive before cs || isUnc cs || isPosix isWord before cs

/-- The pattern matches here or further on. -/
def pathFrom (isWord : Char → Bool) : Option Char → List Char → Bool
  | _, [] => false
  | before, c :: cs => isPath isWord before (c :: cs) || pathFrom isWord (some c) cs

/-- `_ABSOLUTE_PATH_RE.search(text)`. -/
def hasPath (isWord : Char → Bool) (text : String) : Bool := pathFrom isWord none text.toList

/-! ## Exceptions -/

/-- The class of an exception, by the name that a message can show. -/
structure ClassName where
  text : String
  /-- A name has no separators. -/
  identifier : ∀ c ∈ text.toList, isAnySlash c = false

/-- What `__cause__` of an exception is. -/
inductive CauseClass where
  | connectionError
  | timeoutError
  | other

/-- The classes of exceptions that the translation tells apart. -/
inductive Kind where
  | steppingFailed (cause : Option CauseClass) (pidAlive : Option Bool)
  | timeout
  | connection
  | other (osError : Bool)

/-- An exception that is not a `ToolError`. -/
structure Exc where
  name : ClassName
  /-- `str(exc) or repr(exc)`. -/
  text : String
  kind : Kind

/-- The subclasses of `ToolError` that the modelled functions raise. -/
inductive ErrorClass where
  | toolError
  | wsDisconnected
  | cpuFreezeSuspected
  | wsTimeout
  | cpuStateError
  | ppssppProtocolError
  | sessionNotFound
  | sessionExpired
  | sessionBusy
  | wsConnectFailed
  deriving DecidableEq

/-- The `code` of a class. -/
def ErrorClass.code : ErrorClass → String
  | .toolError => "INTERNAL"
  | .wsDisconnected => "WS_DISCONNECTED"
  | .cpuFreezeSuspected => "CPU_FREEZE_SUSPECTED"
  | .wsTimeout => "WS_TIMEOUT"
  | .cpuStateError => "CPU_STATE_ERROR"
  | .ppssppProtocolError => "PPSSPP_PROTOCOL_ERROR"
  | .sessionNotFound => "SESSION_NOT_FOUND"
  | .sessionExpired => "SESSION_EXPIRED"
  | .sessionBusy => "SESSION_BUSY"
  | .wsConnectFailed => "WS_CONNECT_FAILED"

/-- A `ToolError`. -/
structure ToolError where
  cls : ErrorClass
  message : String

/-- `str(error)`, which is what the client reads. -/
def ToolError.text (e : ToolError) : String := "[" ++ e.cls.code ++ "] " ++ e.message

/-- What `_resolve_pid_alive()` and `_resolve_game_state()` find. -/
structure Context where
  pidAlive : Option Bool
  gameState : Option GameState

/-! ## Hints -/

/-- The hints of a failed pause. -/
def pauseLostHint : String :=
  " — Hint: pause failed, PPSSPP WebSocket connection lost. Check that PPSSPP is running and " ++
    "the session is connected, then retry."

def pauseDeadHint : String :=
  " — Hint: pause failed, PID dead; PPSSPP process no longer running. The session is dead; " ++
    "stop and restart it."

def pauseFreezeHint : String :=
  " — Hint: pause failed, PID alive but CPU not entering STEPPING; suspected CPU freeze. " ++
    "Consider ppsspp_screenshot to capture current state, step(action='resume') to attempt " ++
    "unfreeze, or hle.thread.list to check thread status."

def pauseTimeoutHint : String :=
  " — Hint: pause timed out, CPU state unknown (no PID context); suspected CPU freeze. Consider " ++
    "ppsspp_screenshot, step(action='resume'), or hle.thread.list."

def pauseUnreachableHint : String :=
  " — Hint: pause failed, likely because PPSSPP is unreachable or the WebSocket connection " ++
    "dropped. Check that PPSSPP is running and the session is connected, then retry."

/-- The hints of a timeout. -/
def timeoutHint : String :=
  " — Hint: ticketed RPC timed out. For REQUIRED_RUNNING events (gpu.stats.get, " ++
    "gpu.record.dump), ensure CPU is running (not stepping). Use step(action='resume') to resume " ++
    "the CPU before retrying."

def timeoutDeadHint : String :=
  " — Hint: timed out, PID dead; PPSSPP process no longer running. Stop and restart the session."

def timeoutRunningHint : String :=
  " — Hint: timed out, PID alive + game running, CPU freeze suspected (death-loop / HLE block / " ++
    "GPU pipeline stall). Consider ppsspp_screenshot or hle.thread.list."

def timeoutPausedHint : String :=
  " — Hint: timed out, game paused; ticketed call should not be invoked while paused. Use " ++
    "step(action='resume') to resume the CPU before retrying."

def timeoutQuitHint : String :=
  " — Hint: timed out, game quit; PPSSPP process alive but game exited. Stop and restart the " ++
    "session."

def timeoutLoadingHint : String :=
  " — Hint: timed out, game loading (large file load may be slow); retry after loading completes."

def notConnectedHint : String :=
  " — Hint: PPSSPP WebSocket is not connected. Start a session first via " ++
    "ppsspp_session(action='start'), or check that PPSSPP is running with --debugger-port."

def needsSteppingHint : String :=
  " — Hint: this operation requires CPU stepping. Use step(action='pause') to pause the CPU " ++
    "before retrying."

def needsRunningHint : String :=
  " — Hint: this operation requires CPU running. Use step(action='resume') to resume the CPU " ++
    "before retrying."

/-- `_PPSSPP_ERROR_HINTS`, each hint with the dash before it. -/
def ppssppErrorHints : List (String × String) :=
  [("missing end parameter",
    " — Hint: memory.disasm requires count>0. If count=0 was passed, the MCP tool should have " ++
    "short-circuited it. This may indicate a tool wrapper bug."),
   ("missing parameter",
    " — Hint: a required WS parameter was not provided. Check the tool wrapper's parameter " ++
    "forwarding logic."),
   ("invalid address",
    " — Hint: the address is outside PSP user memory range (0x08800000-0x0C000000). Translate " ++
    "IDA <-> PPSSPP addresses by plain arithmetic: ppsspp_addr = ida_addr + (top_base.ppsspp - " ++
    "top_base.ida) (defaults 0x08804000 - 0x00000000); see ppsspp_list_addresses."),
   ("not connected",
    " — Hint: PPSSPP WebSocket is not connected. Start a session first via " ++
    "ppsspp_session(action='start')."),
   ("not started",
    " — Hint: the emulated CPU has not started yet — PPSSPP answers WebSocket requests before " ++
    "the ISO finishes booting. Call ppsspp_session(action='wait_ready', session_id=...) and " ++
    "retry after it returns ready.")]

/-! ## Translation -/

variable (isWord : Char → Bool) (lower : String → String) (ctx : Context)

/-- `_client_message()`. -/
def clientMessage (e : Exc) : String :=
  if hasPath isWord e.text then
    e.name.text ++ ": operation failed (see server log for details)"
  else e.text

/-- `fragment in msg_lower`. -/
def mentions (msg fragment : String) : Bool :=
  decide (fragment.toList <:+: (lower msg).toList)

/-- `_match_ppsspp_hint()`. -/
def matchPpssppHint (msg : String) : String :=
  match ppssppErrorHints.find? fun entry => mentions lower msg entry.1 with
  | some entry => entry.2
  | none => ""

/-- The branch for `SteppingFailedError`. -/
def translateSteppingFailed (msg : String) (cause : Option CauseClass) (pidAlive : Option Bool) :
    ToolError :=
  match cause, pidAlive with
  | some .connectionError, _ => ⟨.wsDisconnected, msg ++ pauseLostHint⟩
  | _, some false => ⟨.wsDisconnected, msg ++ pauseDeadHint⟩
  | _, some true => ⟨.cpuFreezeSuspected, msg ++ pauseFreezeHint⟩
  | some .timeoutError, none => ⟨.cpuFreezeSuspected, msg ++ pauseTimeoutHint⟩
  | _, none => ⟨.wsDisconnected, msg ++ pauseUnreachableHint⟩

/-- `_translate_timeout_error()`. -/
def translateTimeout (msg : String) : ToolError :=
  match ctx.pidAlive with
  | none => ⟨.wsTimeout, msg ++ timeoutHint⟩
  | some false => ⟨.wsDisconnected, msg ++ timeoutDeadHint⟩
  | some true =>
    match ctx.gameState with
    | some .running => ⟨.cpuFreezeSuspected, msg ++ timeoutRunningHint⟩
    | some .paused => ⟨.cpuStateError, msg ++ timeoutPausedHint⟩
    | some .quit => ⟨.wsDisconnected, msg ++ timeoutQuitHint⟩
    | some .loading => ⟨.wsTimeout, msg ++ timeoutLoadingHint⟩
    | none => ⟨.wsTimeout, msg ++ timeoutHint⟩

/-- The branches that go by the words of the message. -/
def translateWords (msg : String) (isConnection : Bool) : ToolError :=
  if isConnection || mentions lower msg "websocket not connected" then
    ⟨.wsDisconnected, msg ++ notConnectedHint⟩
  else if mentions lower msg "ppsspp error" then
    ⟨.ppssppProtocolError, msg ++ matchPpssppHint lower msg⟩
  else if mentions lower msg "not stepping" || mentions lower msg "not paused" ||
      mentions lower msg "cpu is running" then
    ⟨.cpuStateError, msg ++ needsSteppingHint⟩
  else if mentions lower msg "is stepping" || mentions lower msg "cpu is stepping" then
    ⟨.cpuStateError, msg ++ needsRunningHint⟩
  else ⟨.toolError, msg⟩

/-- `to_tool_error()` of an exception that is not a `ToolError`. -/
def toToolError (e : Exc) : ToolError :=
  let msg := clientMessage isWord e
  match e.kind with
  | .steppingFailed cause pidAlive => translateSteppingFailed msg cause pidAlive
  | .timeout => translateTimeout ctx msg
  | .connection => translateWords lower msg true
  | .other _ => translateWords lower msg false

/-! ## Texts without paths -/

section Paths

variable {isWord lower ctx} {before before' : Option Char} {cs tail : List Char} {c : Char}

theorem isAnySlash_of_isSlash (h : isSlash c = true) : isAnySlash c = true := by
  rw [isAnySlash, Bool.or_eq_true]
  exact Or.inl h

/-- A part of a path ends before a blank, whatever comes after it. -/
theorem followed_append_blank {separator : Char → Bool} {blank : Char}
    (hblank : isBlank blank = true) (hseparator : separator blank = false) :
    followed separator (cs ++ blank :: tail) = followed separator cs := by
  have hstop : (!separator blank && !isBlank blank) = false := by
    rw [hblank, Bool.not_true, Bool.and_false]
  induction cs with
  | nil => simp [followed, hblank]
  | cons c rest ih =>
    by_cases hc : (!separator c && !isBlank c) = true
    · by_cases hall : ∀ d ∈ rest, (!separator d && !isBlank d) = true
      · have hkeep : rest.dropWhile (fun d => !separator d && !isBlank d) = [] :=
          List.dropWhile_eq_nil_iff.mpr hall
        simp [followed, hc, List.dropWhile_append, hkeep, hseparator, hblank]
      · obtain ⟨d, more, hd⟩ := List.exists_cons_of_ne_nil
          fun heq : rest.dropWhile (fun d => !separator d && !isBlank d) = [] =>
            hall (List.dropWhile_eq_nil_iff.mp heq)
        simp [followed, hc, List.dropWhile_append, hd]
    · simp [followed, hc]

/-- Where a blank follows, a path begins only if it does so without what comes after. -/
theorem isPath_append_blank (h : isPath isWord before (c :: cs) = false) :
    isPath isWord before (c :: cs ++ ' ' :: tail) = false := by
  simp only [isPath, Bool.or_eq_false_iff] at h ⊢
  obtain ⟨⟨hdrive, hunc⟩, hposix⟩ := h
  refine ⟨⟨?_, ?_⟩, ?_⟩
  · match cs with
    | [] => cases tail <;> simp [isDrive]
    | [colon] => simp [isDrive, isAnySlash]
    | colon :: slash :: rest => exact hdrive
  · match cs with
    | [] => simp [isUnc]
    | d :: rest =>
      simp only [isUnc, List.cons_append] at hunc ⊢
      rwa [followed_append_blank (by decide) (by decide)]
  · simp only [isPosix, List.cons_append] at hposix ⊢
    rwa [followed_append_blank (by decide) (by decide)]

/-- A character before the text can only rule out a path. -/
theorem pathFrom_of_none (h : pathFrom isWord none cs = false) :
    pathFrom isWord before cs = false := by
  cases cs with
  | nil => rfl
  | cons c rest =>
    simp only [pathFrom, isPath, Bool.or_eq_false_iff] at h ⊢
    obtain ⟨⟨⟨hdrive, hunc⟩, hposix⟩, hrest⟩ := h
    refine ⟨⟨⟨?_, hunc⟩, ?_⟩, hrest⟩
    · match rest with
      | [] => rfl
      | [colon] => rfl
      | colon :: slash :: rest =>
        simp only [isDrive, Option.any_none, Bool.not_false, Bool.true_and] at hdrive
        rw [isDrive, Bool.and_assoc, Bool.and_assoc, ← Bool.and_assoc (isAsciiLetter c), hdrive,
          Bool.and_false]
    · simp only [isPosix, Option.any_none, Bool.not_false, Bool.and_true] at hposix
      rw [isPosix, Bool.and_right_comm, hposix, Bool.false_and]

/-- A text and a hint that is set off by a blank make no new path. -/
theorem pathFrom_append (h : pathFrom isWord before cs = false)
    (htail : pathFrom isWord (some ' ') tail = false) :
    pathFrom isWord before (cs ++ ' ' :: tail) = false := by
  induction cs generalizing before with
  | nil =>
    rw [List.nil_append, pathFrom, htail, Bool.or_false]
    match tail with
    | [] => rfl
    | [colon] => rfl
    | colon :: slash :: rest => simp [isPath, isDrive, isUnc, isPosix, isAsciiLetter, isSlash]
  | cons c rest ih =>
    simp only [pathFrom, Bool.or_eq_false_iff] at h
    rw [List.cons_append, pathFrom, ih h.2, Bool.or_false]
    exact isPath_append_blank h.1

theorem exists_of_followed {separator : Char → Bool} (h : followed separator cs = true) :
    ∃ d ∈ cs, separator d = true := by
  obtain ⟨d, hd, hseparator⟩ := (Option.any_eq_true _ _).mp (Bool.and_eq_true_iff.mp h).2
  exact ⟨d, (List.dropWhile_suffix _).subset (List.mem_of_mem_head? hd), hseparator⟩

/-- Every path has a separator. -/
theorem exists_of_isPath (h : isPath isWord before cs = true) :
    ∃ d ∈ cs, isAnySlash d = true := by
  simp only [isPath, Bool.or_eq_true] at h
  rcases h with (hdrive | hunc) | hposix
  · match cs with
    | [] => exact absurd hdrive Bool.false_ne_true
    | [_] => exact absurd hdrive Bool.false_ne_true
    | [_, _] => exact absurd hdrive Bool.false_ne_true
    | _ :: _ :: slash :: _ => exact ⟨slash, by simp, (Bool.and_eq_true_iff.mp hdrive).2⟩
  · match cs with
    | [] => exact absurd hunc Bool.false_ne_true
    | [_] => exact absurd hunc Bool.false_ne_true
    | _ :: _ :: rest =>
      obtain ⟨d, hd, hslash⟩ := exists_of_followed (Bool.and_eq_true_iff.mp hunc).2
      exact ⟨d, List.mem_cons_of_mem _ (List.mem_cons_of_mem _ hd), hslash⟩
  · match cs with
    | [] => exact absurd hposix Bool.false_ne_true
    | _ :: rest =>
      obtain ⟨d, hd, hslash⟩ := exists_of_followed (Bool.and_eq_true_iff.mp hposix).2
      exact ⟨d, List.mem_cons_of_mem _ hd, isAnySlash_of_isSlash hslash⟩

theorem not_slash_of_any (h : cs.any isAnySlash = false) : ∀ d ∈ cs, isAnySlash d = false :=
  fun d hd => Bool.eq_false_iff.mpr (List.any_eq_false.mp h d hd)

theorem pathFrom_of_no_slash (h : ∀ d ∈ cs, isAnySlash d = false) :
    pathFrom isWord before cs = false := by
  induction cs generalizing before with
  | nil => rfl
  | cons c rest ih =>
    rw [pathFrom, ih fun d hd => h d (List.mem_cons_of_mem _ hd), Bool.or_false,
      Bool.eq_false_iff]
    intro hpath
    obtain ⟨d, hd, hslash⟩ := exists_of_isPath hpath
    exact Bool.false_ne_true ((h d hd).symm.trans hslash)

/-- Fewer word characters leave more paths. -/
theorem pathFrom_mono (h : pathFrom (fun _ => false) before cs = false) :
    pathFrom isWord before cs = false := by
  induction cs generalizing before with
  | nil => rfl
  | cons c rest ih =>
    simp only [pathFrom, isPath, Bool.or_eq_false_iff] at h ⊢
    obtain ⟨⟨hother, hposix⟩, hrest⟩ := h
    refine ⟨⟨hother, ?_⟩, ih hrest⟩
    simp only [isPosix, Bool.and_eq_false_iff, Bool.false_or] at hposix ⊢
    rcases hposix with (hslash | hbefore) | hfollowed
    · exact Or.inl (Or.inl hslash)
    · refine Or.inl (Or.inr ?_)
      cases before with
      | none => exact Bool.noConfusion hbefore
      | some b => simp_all
    · exact Or.inr hfollowed

end Paths

/-! ## The client's text -/

variable {isWord lower ctx}

/-- The text is set off by a blank and has no path, whatever characters make up words. -/
def isHint : List Char → Bool
  | blank :: tail => blank == ' ' && !pathFrom (fun _ => false) (some ' ') tail
  | [] => false

/-- A text that is such a hint. Its characters are given, since decoding them is slow. -/
def IsHint (text : String) : Prop := ∃ cs, text = String.ofList cs ∧ isHint cs = true

/-- A hint after a text without a path. -/
theorem hasPath_append_hint {msg hint : String} (hmsg : hasPath isWord msg = false)
    (hhint : IsHint hint) : hasPath isWord (msg ++ hint) = false := by
  obtain ⟨cs, rfl, hcs⟩ := hhint
  rw [hasPath, String.toList_append, String.toList_ofList]
  cases cs with
  | nil => exact absurd hcs Bool.false_ne_true
  | cons blank tail =>
    simp only [isHint, Bool.and_eq_true, beq_iff_eq, Bool.not_eq_true'] at hcs
    obtain ⟨rfl, htail⟩ := hcs
    exact pathFrom_append hmsg (pathFrom_mono htail)

/-- What `_client_message()` leaves has no path. -/
theorem hasPath_clientMessage (e : Exc) : hasPath isWord (clientMessage isWord e) = false := by
  unfold clientMessage
  split
  · apply pathFrom_of_no_slash
    intro c hc
    rw [String.toList_append, List.mem_append] at hc
    rcases hc with hname | htext
    · exact e.name.identifier c hname
    · exact not_slash_of_any (by decide) c htext
  · rename_i hpath
    exact Bool.eq_false_iff.mpr hpath

/-- The characters of a text in pieces. -/
theorem append_ofList {s t : String} {cs ds : List Char} (hs : s = String.ofList cs)
    (ht : t = String.ofList ds) : s ++ t = String.ofList (cs ++ ds) := by
  rw [hs, ht, String.ofList_append]

section Hints

-- the characters of a hint are a list of some hundreds
set_option maxRecDepth 4000

theorem isHint_ppssppErrorHints : ∀ entry ∈ ppssppErrorHints, IsHint entry.2 := by
  intro entry hmem
  simp only [ppssppErrorHints, List.mem_cons, List.not_mem_nil, or_false] at hmem
  rcases hmem with rfl | rfl | rfl | rfl | rfl
  · exact ⟨_, append_ofList rfl rfl, rfl⟩
  · exact ⟨_, append_ofList rfl rfl, rfl⟩
  · exact ⟨_, append_ofList (append_ofList rfl rfl) rfl, rfl⟩
  · exact ⟨_, append_ofList rfl rfl, rfl⟩
  · exact ⟨_, append_ofList (append_ofList rfl rfl) rfl, rfl⟩

theorem translateSteppingFailed_message (msg : String) (cause : Option CauseClass)
    (pidAlive : Option Bool) : ∃ hint, IsHint hint ∧
      (translateSteppingFailed msg cause pidAlive).message = msg ++ hint := by
  unfold translateSteppingFailed
  split
  · exact ⟨pauseLostHint, ⟨_, append_ofList rfl rfl, rfl⟩, rfl⟩
  · exact ⟨pauseDeadHint, ⟨_, append_ofList rfl rfl, rfl⟩, rfl⟩
  · exact ⟨pauseFreezeHint, ⟨_, append_ofList (append_ofList rfl rfl) rfl, rfl⟩, rfl⟩
  · exact ⟨pauseTimeoutHint, ⟨_, append_ofList rfl rfl, rfl⟩, rfl⟩
  · exact ⟨pauseUnreachableHint, ⟨_, append_ofList rfl rfl, rfl⟩, rfl⟩

theorem translateTimeout_message (msg : String) : ∃ hint, IsHint hint ∧
    (translateTimeout ctx msg).message = msg ++ hint := by
  unfold translateTimeout
  split
  · exact ⟨timeoutHint, ⟨_, append_ofList (append_ofList rfl rfl) rfl, rfl⟩, rfl⟩
  · exact ⟨timeoutDeadHint, ⟨_, rfl, rfl⟩, rfl⟩
  · split
    · exact ⟨timeoutRunningHint, ⟨_, append_ofList rfl rfl, rfl⟩, rfl⟩
    · exact ⟨timeoutPausedHint, ⟨_, append_ofList rfl rfl, rfl⟩, rfl⟩
    · exact ⟨timeoutQuitHint, ⟨_, append_ofList rfl rfl, rfl⟩, rfl⟩
    · exact ⟨timeoutLoadingHint, ⟨_, rfl, rfl⟩, rfl⟩
    · exact ⟨timeoutHint, ⟨_, append_ofList (append_ofList rfl rfl) rfl, rfl⟩, rfl⟩

theorem translateWords_message (msg : String) (isConnection : Bool) :
    (translateWords lower msg isConnection).message = msg ∨ ∃ hint, IsHint hint ∧
      (translateWords lower msg isConnection).message = msg ++ hint := by
  unfold translateWords
  split
  · exact Or.inr ⟨notConnectedHint, ⟨_, append_ofList rfl rfl, rfl⟩, rfl⟩
  · split
    · unfold matchPpssppHint
      split
      · rename_i entry hentry
        have hmem := List.mem_of_find?_eq_some hentry
        exact Or.inr ⟨entry.2, isHint_ppssppErrorHints entry hmem, rfl⟩
      · exact Or.inl String.append_empty
    · split
      · exact Or.inr ⟨needsSteppingHint, ⟨_, append_ofList rfl rfl, rfl⟩, rfl⟩
      · split
        · exact Or.inr ⟨needsRunningHint, ⟨_, append_ofList rfl rfl, rfl⟩, rfl⟩
        · exact Or.inl rfl

end Hints

/-- Every translated error is the client's message, with a hint or without. -/
theorem toToolError_message (e : Exc) :
    (toToolError isWord lower ctx e).message = clientMessage isWord e ∨
      ∃ hint, IsHint hint ∧
        (toToolError isWord lower ctx e).message = clientMessage isWord e ++ hint := by
  unfold toToolError
  cases e.kind with
  | steppingFailed cause pidAlive => exact Or.inr (translateSteppingFailed_message _ cause pidAlive)
  | timeout => exact Or.inr (translateTimeout_message _)
  | connection => exact translateWords_message _ true
  | other osError => exact translateWords_message _ false

/-- Whatever a tool raises, apart from its own `ToolError`s, the client is told no absolute path
of the host; and the words of the exception are kept unless they hold one. -/
theorem no_path_in_toToolError (e : Exc) :
    hasPath isWord (toToolError isWord lower ctx e).text = false ∧
      (hasPath isWord e.text = false →
        e.text.toList <+: (toToolError isWord lower ctx e).message.toList) := by
  have hclient := @hasPath_clientMessage isWord e
  constructor
  · have hmessage : hasPath isWord (toToolError isWord lower ctx e).message = false := by
      rcases toToolError_message e with heq | ⟨hint, hhint, heq⟩
      · rw [heq]
        exact hclient
      · rw [heq]
        exact hasPath_append_hint hclient hhint
    have hfront : ∀ cls : ErrorClass, ∃ front : List Char,
        ("[" ++ cls.code ++ "] ").toList = front ++ [' '] ∧ front.any isAnySlash = false := by
      intro cls
      refine ⟨'[' :: cls.code.toList ++ [']'], ?_, ?_⟩
      · cases cls <;> rfl
      · cases cls <;> decide
    obtain ⟨front, heq, hslash⟩ := hfront (toToolError isWord lower ctx e).cls
    unfold ToolError.text
    rw [hasPath, String.toList_append, heq, List.append_assoc, List.singleton_append]
    exact pathFrom_append (pathFrom_of_no_slash (not_slash_of_any hslash)) (pathFrom_of_none hmessage)
  · intro hpath
    have hsame : clientMessage isWord e = e.text := by
      rw [clientMessage, hpath]
      rfl
    rcases toToolError_message e with heq | ⟨hint, _, heq⟩
    · rw [heq, hsame]
    · rw [heq, hsame, String.toList_append]
      exact List.prefix_append _ _

end Errors
