import Mathlib.Algebra.Order.Archimedean.Basic
import Mathlib.Algebra.Order.Ring.Rat
import Mathlib.Tactic.NormNum
import PpssppDfx.Python.Value
import PpssppDfx.Semantics.Polling

/-!
# Waits that poll

Three operations ask the emulator until they get the answer they want: that the CPU is in some
state, that a replay has ended, that memory can be read. The call is cut to the time that is left,
and it is made even when none is.

Times are in milliseconds. How long a call and a sleep take, how a time is shown and what `int`
makes of a value are parameters.

## Main definitions

* `Transport.waitForState`, `Transport.replayWaitComplete`, `Transport.probeCpuReady`

## Main results

* `Transport.waits_keep_budget` — each ends in time, with what its last call says
-/

set_option autoImplicit false

namespace Transport

open Python Semantics

/-! ## Calls -/

/-- What a call comes to. Its `TimeoutError` is told apart from the other exceptions. -/
inductive Reading where
  | answered (resp : Dict)
  | timedOut (message : String)
  | raised (message : String)
  | cancelled

structure Question where
  event : String
  params : Dict

/-- The environment of a wait: a call, by its number, its time and its timeout, and a sleep. -/
structure Peer where
  call : Question → ℕ → ℚ → ℚ → ℚ × Reading
  sleep : ℕ → ℚ → ℚ

/-- A call gives up at its timeout, and a sleep lasts; the loop may be late for both. -/
structure Peer.Punctual (peer : Peer) (slack lag : ℚ) : Prop where
  call_nonneg : ∀ q i now timeout, 0 ≤ (peer.call q i now timeout).1
  call_le : ∀ q i now timeout, 0 ≤ timeout → (peer.call q i now timeout).1 ≤ timeout + slack
  le_sleep : ∀ i interval, interval ≤ peer.sleep i interval
  sleep_le : ∀ i interval, peer.sleep i interval ≤ interval + lag

inductive WaitError where
  | timeout (message : String)
  | bootTimeout (message : String)
  | raised (message : String)
  | cancelled

/-- The end of a loop, as the result of a wait. -/
def waitResult {σ α : Type} (expired : σ → WaitError) :
    PollEnd σ α WaitError → Except WaitError α
  | .done a => .ok a
  | .expired s => .error (expired s)
  | .fail e => .error e

/-- `DEFAULT_CALL_TIMEOUT_S`. -/
def defaultCallTimeout : ℚ := 5000

/-- The timeout of a poll. -/
def clampedTimeout (left : ℚ) : ℚ := max 100 (min defaultCallTimeout left)

variable (peer : Peer)

/-! ## The state of the CPU -/

def statusQuestion : Question := ⟨"cpu.status", []⟩

def stateTimeoutText (timeoutMs : ℕ) : String :=
  "wait_for_state timeout (" ++ toString timeoutMs ++ "ms) — predicate not satisfied"

/-- What a poll of `wait_for_state` says. -/
def stateReply (predicate : Dict → Bool) (timeoutMs : ℕ) : Reading → Reply Unit Dict WaitError
  | .answered status => if predicate status then .done status else .again ()
  | .timedOut e => .fail (.timeout (stateTimeoutText timeoutMs ++ " (last poll: " ++ e ++ ")"))
  | .raised e => .fail (.raised e)
  | .cancelled => .fail .cancelled

def statePolling (timeoutMs intervalMs : ℕ) : Polling ℚ :=
  ⟨timeoutMs, intervalMs, clampedTimeout⟩

def stateWorld (predicate : Dict → Bool) (timeoutMs intervalMs : ℕ) :
    PollWorld ℚ Unit Dict WaitError where
  ask i _ now timeout :=
    ((peer.call statusQuestion i now timeout).1,
      stateReply predicate timeoutMs (peer.call statusQuestion i now timeout).2)
  sleep i := peer.sleep i intervalMs

/-- `wait_for_state`: the time it takes, and its result. -/
def waitForState (predicate : Dict → Bool) (timeoutMs intervalMs fuel : ℕ) :
    Option (ℚ × Except WaitError Dict) :=
  (pollFrom (statePolling timeoutMs intervalMs) (stateWorld peer predicate timeoutMs intervalMs)
    fuel 0 () 0).map fun (_, time, last) =>
      (time, waitResult (fun _ => .timeout (stateTimeoutText timeoutMs)) last)

/-! ## The end of a replay -/

def replayStatusQuestion : Question := ⟨"replay.status", []⟩

def replayTimeoutText (timeoutMs iterations : ℕ) : String :=
  "replay.wait_complete timeout (" ++ toString timeoutMs ++ "ms) — executing still True after " ++
    toString iterations ++ " polls"

/-- A status that says that no replay is executing; one without the field does not. -/
def replayEnded (status : Dict) : Bool :=
  match status.get? "executing" with
  | none | some .none => false
  | some executing => !executing.truthy

/-- What a poll of `replay_wait_complete` says, which is the `iterations`-th. -/
def replayReply (timeoutMs iterations : ℕ) : Reading → Reply ℕ Dict WaitError
  | .answered last =>
    if replayEnded last then .done (last.set "_wait_iterations" (.int iterations))
    else .again iterations
  | .timedOut e =>
    .fail (.timeout (replayTimeoutText timeoutMs iterations ++ " (last poll: " ++ e ++ ")"))
  | .raised e => .fail (.raised e)
  | .cancelled => .fail .cancelled

def replayWorld (timeoutMs intervalMs : ℕ) : PollWorld ℚ ℕ Dict WaitError where
  ask i _ now timeout :=
    ((peer.call replayStatusQuestion i now timeout).1,
      replayReply timeoutMs (i + 1) (peer.call replayStatusQuestion i now timeout).2)
  sleep i := peer.sleep i intervalMs

/-- `replay_wait_complete`: the time it takes, and its result. -/
def replayWaitComplete (timeoutMs intervalMs fuel : ℕ) : Option (ℚ × Except WaitError Dict) :=
  (pollFrom (statePolling timeoutMs intervalMs) (replayWorld peer timeoutMs intervalMs)
    fuel 0 0 0).map fun (_, time, last) =>
      (time, waitResult (fun iterations => .timeout (replayTimeoutText timeoutMs iterations)) last)

/-! ## The boot of the CPU -/

/-- The language: the formats `.0f` and `.1f` of a number of seconds, `round(…, 3)`, and `int`, or
the text of what it raises. -/
structure Rendering where
  fixed0 : ℚ → String
  fixed1 : ℚ → String
  round3 : ℚ → Value
  int : Value → Except String ℤ

structure Readiness where
  elapsedS : Value
  probeValue : ℤ

/-- A boot to wait for. What the liveness check says at a poll, if there is one and it says
anything, is up to the environment. -/
structure BootWait where
  probeAddr : ℤ
  budget : ℚ
  interval : ℚ
  alive : ℕ → Option Bool

variable (r : Rendering) (b : BootWait)

def probeQuestion (probeAddr : ℤ) : Question :=
  ⟨"memory.read_u32", [(.str "address", .int probeAddr)]⟩

def orNone (lastError : String) : String := if lastError = "" then "none" else lastError

def bootDiedText (now : ℚ) (lastError : String) : String :=
  "emulated CPU did not start: the PPSSPP process died during boot (probe at 0x" ++
    hex08 b.probeAddr ++ " after " ++ r.fixed1 (now / 1000) ++ "s; last error: " ++
    orNone lastError ++ "). The session is wedged, not merely slow: check ppsspp_analyze_log " ++
    "for boot errors (GPU backend failure records are a known cause), then stop and restart " ++
    "the session."

def bootTimeoutText (lastError : String) : String :=
  "emulated CPU did not start within " ++ r.fixed0 (b.budget / 1000) ++ "s (probe read at 0x" ++
    hex08 b.probeAddr ++ " kept failing; last error: " ++ orNone lastError ++
    "). The session is likely wedged, not merely slow: check ppsspp_analyze_log for boot " ++
    "errors (GPU backend failure records are a known cause), then stop and restart the session."

/-- What a probe read that returns at a time says; any exception is an error to try again after. -/
def probeReply (time : ℚ) : Reading → Reply String Readiness WaitError
  | .answered resp =>
    match r.int ((resp.get? "value").getD (.int 0)) with
    | .ok n => .done ⟨r.round3 (time / 1000), n⟩
    | .error e => .again (String.ofList (e.toList.take 300))
  | .timedOut e => .again (String.ofList (e.toList.take 300))
  | .raised e => .again (String.ofList (e.toList.take 300))
  | .cancelled => .fail .cancelled

def bootPolling : Polling ℚ := ⟨b.budget, b.interval, fun left => max 100 left⟩

def bootWorld : PollWorld ℚ String Readiness WaitError where
  ask i lastError now timeout :=
    -- a process that is dead is not read
    if b.alive i = some false then (0, .fail (.bootTimeout (bootDiedText r b now lastError)))
    else
      ((peer.call (probeQuestion b.probeAddr) i now timeout).1,
        probeReply r (now + (peer.call (probeQuestion b.probeAddr) i now timeout).1)
          (peer.call (probeQuestion b.probeAddr) i now timeout).2)
  sleep i := peer.sleep i b.interval

/-- `probe_cpu_ready`: the time it takes, and its result. -/
def probeCpuReady (fuel : ℕ) : Option (ℚ × Except WaitError Readiness) :=
  (pollFrom (bootPolling b) (bootWorld peer r b) fuel 0 "" 0).map fun (_, time, last) =>
    (time, waitResult (fun lastError => .bootTimeout (bootTimeoutText r b lastError)) last)

/-! ## What the last poll says -/

/-- A wait ends: not after `latest`, and for a reason. -/
def EndsBy {α : Type} (run : ℕ → Option (ℚ × Except WaitError α)) (latest : ℚ)
    (Why : ℚ → Except WaitError α → Prop) : Prop :=
  (∃ fuel, (run fuel).isSome) ∧
    ∀ fuel time result, run fuel = some (time, result) → time ≤ latest ∧ Why time result

/-- A result is that of a poll: what it was asked for, what it failed with, or that it was not
content when the time was over. -/
def ResultOf {σ α : Type} (reply : Reply σ α WaitError) (Over : Prop) (expired : σ → WaitError) :
    Except WaitError α → Prop
  | .ok a => reply = .done a
  | .error e => reply = .fail e ∨ (∃ s, reply = .again s ∧ Over ∧ e = expired s)

/-- What `wait_for_state` comes to is what its last call says. -/
def StateResult (predicate : Dict → Bool) (timeoutMs : ℕ) (time : ℚ)
    (result : Except WaitError Dict) : Prop :=
  ∃ i start, let poll := peer.call statusQuestion i start (clampedTimeout (timeoutMs - start))
    time = start + poll.1 ∧
      ResultOf (stateReply predicate timeoutMs poll.2) (timeoutMs ≤ time)
        (fun _ => .timeout (stateTimeoutText timeoutMs)) result

/-- The same of `replay_wait_complete`, which also tells how many calls it made. -/
def ReplayEndResult (timeoutMs : ℕ) (time : ℚ) (result : Except WaitError Dict) : Prop :=
  ∃ i start, let poll := peer.call replayStatusQuestion i start (clampedTimeout (timeoutMs - start))
    time = start + poll.1 ∧
      ResultOf (replayReply timeoutMs (i + 1) poll.2) (timeoutMs ≤ time)
        (fun iterations => .timeout (replayTimeoutText timeoutMs iterations)) result

/-- The same of `probe_cpu_ready`, unless the process is found dead. -/
def BootResult (time : ℚ) (result : Except WaitError Readiness) : Prop :=
  ∃ i start, let poll := peer.call (probeQuestion b.probeAddr) i start (max 100 (b.budget - start))
    if b.alive i = some false then
      time = start ∧ ∃ lastError, result = .error (.bootTimeout (bootDiedText r b time lastError))
    else
      time = start + poll.1 ∧
        ResultOf (probeReply r time poll.2) (b.budget ≤ time)
          (fun lastError => .bootTimeout (bootTimeoutText r b lastError)) result

/-! ## The results -/

section

variable {peer} {r} {b} {slack lag : ℚ} {σ α : Type}

/-- A loop that is a wait: its result has the reason of its end. -/
theorem endsBy_pollFrom {p : Polling ℚ} {w : PollWorld ℚ σ α WaitError} {s : σ}
    {expired : σ → WaitError} {Why : ℚ → Except WaitError α → Prop}
    (hw : w.Punctual p slack lag)
    (hbudget : ∀ left, 0 ≤ p.budget left ∧ p.budget left ≤ max 100 left)
    (hinterval : 0 < p.interval) (hlag : 0 ≤ lag) (hdeadline : 0 ≤ p.deadline)
    (hwhy : ∀ n time last, last.Explained p w n time → Why time (waitResult expired last)) :
    EndsBy (fun fuel => (pollFrom p w fuel 0 s 0).map fun (_, time, last) =>
        (time, waitResult expired last))
      (p.deadline + (p.interval + lag) + 100 + slack) Why := by
  constructor
  · obtain ⟨fuel, hfuel⟩ := exists_poll hw hinterval s
    exact ⟨fuel, by rwa [Option.isSome_map]⟩
  · intro fuel time result h
    obtain ⟨⟨n, time', last⟩, hpoll, hresult⟩ := Option.map_eq_some_iff.mp h
    obtain ⟨rfl, rfl⟩ : time' = time ∧ waitResult expired last = result := by simpa using hresult
    obtain ⟨hexplained, htime⟩ :=
      poll_spec hw hbudget (add_nonneg hinterval.le hlag) (by norm_num) hdeadline hpoll
    exact ⟨htime, hwhy n _ last hexplained⟩

/-- The end of a loop is explained by the answer to its last question. -/
theorem PollEnd.Explained.resultOf {p : Polling ℚ} {w : PollWorld ℚ σ α WaitError} {n : ℕ}
    {time : ℚ} {last : PollEnd σ α WaitError} (h : last.Explained p w n time)
    (expired : σ → WaitError) :
    ∃ i s start, let answer := w.ask i s start (p.budget (p.deadline - start))
      time = start + answer.1 ∧
        ResultOf answer.2 (p.deadline ≤ time) expired (waitResult expired last) := by
  obtain ⟨i, s, start, -, htime, hlast⟩ := h
  refine ⟨i, s, start, htime, ?_⟩
  cases last with
  | done a => exact hlast
  | fail e => exact Or.inl hlast
  | expired s' => exact Or.inr ⟨s', hlast.1, hlast.2, rfl⟩

theorem ResultOf.of_fail {e : WaitError} {Over : Prop} {expired : σ → WaitError}
    {result : Except WaitError α} (h : ResultOf (.fail e) Over expired result) :
    result = .error e := by
  cases result with
  | ok a => cases h
  | error e' =>
    rcases h with h | ⟨s, h, -⟩
    · exact congrArg Except.error (Reply.fail.inj h).symm
    · cases h

theorem clampedTimeout_le (left : ℚ) :
    0 ≤ clampedTimeout left ∧ clampedTimeout left ≤ max 100 left :=
  ⟨le_max_of_le_left (by norm_num), max_le_max le_rfl (min_le_right _ _)⟩

theorem stateWorld_punctual (hp : peer.Punctual slack lag) (predicate : Dict → Bool)
    (timeoutMs intervalMs : ℕ) :
    (stateWorld peer predicate timeoutMs intervalMs).Punctual (statePolling timeoutMs intervalMs)
      slack lag where
  ask_nonneg _ _ _ _ := hp.call_nonneg ..
  ask_le _ _ _ _ := hp.call_le _ _ _ _
  interval_le _ := hp.le_sleep ..
  sleep_le _ := hp.sleep_le ..

theorem replayWorld_punctual (hp : peer.Punctual slack lag) (timeoutMs intervalMs : ℕ) :
    (replayWorld peer timeoutMs intervalMs).Punctual (statePolling timeoutMs intervalMs)
      slack lag where
  ask_nonneg _ _ _ _ := hp.call_nonneg ..
  ask_le _ _ _ _ := hp.call_le _ _ _ _
  interval_le _ := hp.le_sleep ..
  sleep_le _ := hp.sleep_le ..

/-- A liveness check takes no time, and less than any poll may. -/
theorem bootWorld_punctual (hp : peer.Punctual slack lag) :
    (bootWorld peer r b).Punctual (bootPolling b) slack lag where
  ask_nonneg i lastError now timeout := by
    rw [bootWorld]
    dsimp only
    split
    · exact le_rfl
    · exact hp.call_nonneg ..
  ask_le i lastError now timeout htimeout := by
    have hcall := hp.call_le (probeQuestion b.probeAddr) i now timeout htimeout
    rw [bootWorld]
    dsimp only
    split
    · exact (hp.call_nonneg ..).trans hcall
    · exact hcall
  interval_le _ := hp.le_sleep ..
  sleep_le _ := hp.sleep_le ..

theorem waitForState_endsBy (hp : peer.Punctual slack lag) (hlag : 0 ≤ lag)
    (predicate : Dict → Bool) (timeoutMs intervalMs : ℕ) (hinterval : 0 < intervalMs) :
    EndsBy (waitForState peer predicate timeoutMs intervalMs)
      (timeoutMs + (intervalMs + lag) + 100 + slack)
      (StateResult peer predicate timeoutMs) := by
  refine endsBy_pollFrom (stateWorld_punctual hp predicate timeoutMs intervalMs)
    clampedTimeout_le (Nat.cast_pos.mpr hinterval) hlag (Nat.cast_nonneg _) ?_
  intro n time last hlast
  obtain ⟨i, s, start, hresult⟩ := PollEnd.Explained.resultOf hlast _
  exact ⟨i, start, hresult⟩

theorem replayWaitComplete_endsBy (hp : peer.Punctual slack lag) (hlag : 0 ≤ lag)
    (timeoutMs intervalMs : ℕ) (hinterval : 0 < intervalMs) :
    EndsBy (replayWaitComplete peer timeoutMs intervalMs)
      (timeoutMs + (intervalMs + lag) + 100 + slack) (ReplayEndResult peer timeoutMs) := by
  refine endsBy_pollFrom (replayWorld_punctual hp timeoutMs intervalMs)
    clampedTimeout_le (Nat.cast_pos.mpr hinterval) hlag (Nat.cast_nonneg _) ?_
  intro n time last hlast
  obtain ⟨i, s, start, hresult⟩ := PollEnd.Explained.resultOf hlast _
  exact ⟨i, start, hresult⟩

theorem probeCpuReady_endsBy (hp : peer.Punctual slack lag) (hlag : 0 ≤ lag)
    (hbudget : 0 ≤ b.budget) (hinterval : 0 < b.interval) :
    EndsBy (probeCpuReady peer r b) (b.budget + (b.interval + lag) + 100 + slack)
      (BootResult peer r b) := by
  refine endsBy_pollFrom (bootWorld_punctual hp)
    (fun _ => ⟨le_max_of_le_left (by norm_num), le_rfl⟩) hinterval hlag hbudget ?_
  intro n time last hlast
  obtain ⟨i, lastError, start, htime, hresult⟩ := PollEnd.Explained.resultOf hlast
    fun lastError => .bootTimeout (bootTimeoutText r b lastError)
  refine ⟨i, start, ?_⟩
  simp only [bootWorld, bootPolling] at htime hresult
  split
  · rename_i hdead
    rw [if_pos hdead] at htime hresult
    rw [add_zero] at htime
    rw [← htime] at hresult
    exact ⟨htime, lastError, hresult.of_fail⟩
  · rename_i halive
    rw [if_neg halive] at htime hresult
    dsimp only at htime hresult
    rw [← htime] at hresult
    exact ⟨htime, hresult⟩

/-- With calls that give up at their timeout, a wait of `T` is over by `T`, one sleep, one call of a
tenth of a second and what the loop is late. What it returns or raises is what its last call
says, so that an answer that it wants is never dropped for the deadline. -/
theorem waits_keep_budget (hp : peer.Punctual slack lag) (hlag : 0 ≤ lag)
    (predicate : Dict → Bool) (timeoutMs intervalMs : ℕ) (hintervalMs : 0 < intervalMs)
    (hbudget : 0 ≤ b.budget) (hinterval : 0 < b.interval) :
    EndsBy (waitForState peer predicate timeoutMs intervalMs)
        (timeoutMs + (intervalMs + lag) + 100 + slack) (StateResult peer predicate timeoutMs) ∧
      EndsBy (replayWaitComplete peer timeoutMs intervalMs)
        (timeoutMs + (intervalMs + lag) + 100 + slack) (ReplayEndResult peer timeoutMs) ∧
      EndsBy (probeCpuReady peer r b) (b.budget + (b.interval + lag) + 100 + slack)
        (BootResult peer r b) :=
  ⟨waitForState_endsBy hp hlag predicate timeoutMs intervalMs hintervalMs,
    replayWaitComplete_endsBy hp hlag timeoutMs intervalMs hintervalMs,
    probeCpuReady_endsBy hp hlag hbudget hinterval⟩

/-- A peer whose CPU stops at the second call; a call takes a fiftieth of a second. -/
def promptPeer : Peer where
  call _ i _ timeout := (min 20 (max 0 timeout),
    .answered [(.str "stepping", .bool (0 < i)), (.str "executing", .bool false),
      (.str "value", .int 7)])
  sleep _ interval := interval

theorem promptPeer_punctual : promptPeer.Punctual 0 0 where
  call_nonneg _ _ _ timeout := le_min (by norm_num) (le_max_left 0 timeout)
  call_le _ _ _ timeout htimeout :=
    (min_le_right _ _).trans ((max_eq_right htimeout).trans (add_zero timeout).symm).le
  le_sleep _ interval := le_rfl
  sleep_le _ interval := (add_zero interval).symm.le

def plainRendering : Rendering where
  fixed0 q := toString q.floor
  fixed1 q := toString q.floor
  round3 q := .float (q ≠ 0) (toString q.floor)
  int
    | .int n => .ok n
    | _ => .error "int() argument must be a number"

/-- `ppsspp_session(action='wait_ready')`. -/
def readyWait : BootWait := ⟨0x08804000, 75000, 1000, fun _ => none⟩

def isStepping (status : Dict) : Bool :=
  match status.get? "stepping" with
  | some (.bool true) => true
  | _ => false

example : (waitForState promptPeer isStepping 3000 50 2).map Prod.fst = some 90 := by
  decide +kernel

theorem waits_keep_budget_promptPeer :
    EndsBy (waitForState promptPeer isStepping 3000 50) ((3000 : ℕ) + ((50 : ℕ) + 0) + 100 + 0)
        (StateResult promptPeer isStepping 3000) ∧
      EndsBy (replayWaitComplete promptPeer 3000 50) ((3000 : ℕ) + ((50 : ℕ) + 0) + 100 + 0)
        (ReplayEndResult promptPeer 3000) ∧
      EndsBy (probeCpuReady promptPeer plainRendering readyWait) (75000 + (1000 + 0) + 100 + 0)
        (BootResult promptPeer plainRendering readyWait) :=
  waits_keep_budget promptPeer_punctual le_rfl isStepping 3000 50 (by norm_num)
    (by norm_num [readyWait]) (by norm_num [readyWait])

end

end Transport
