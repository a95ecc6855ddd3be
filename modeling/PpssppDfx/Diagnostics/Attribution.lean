import PpssppDfx.Diagnostics.Records
import PpssppDfx.Python.Value

/-!
# The cause of a timeout

A call that is not answered in time can have failed in several ways, and its record tells them
apart: whether the CPU was stepping when the wait ended, and whether a broadcast of the same
event arrived meanwhile.

## Main definitions

* `Diagnostics.attributeTimeout` — the cause of a timed-out call
* `Diagnostics.attributionSuffix` — what an error text says about it

## Main results

* `Diagnostics.attributeTimeout_of_noResponse` — a record of the transport's own timeout is
  never put down to the transport
-/

set_option autoImplicit false

namespace Diagnostics

open Python

/-- The `CAUSE_*` constants. -/
inductive Cause where
  | expectedStall
  | pairingBroken
  | noProducer
  | transportError
  | unknown
  deriving DecidableEq

/-- The value of a `CAUSE_*` constant. -/
def Cause.text : Cause → String
  | .expectedStall => "expected_stall"
  | .pairingBroken => "pairing_broken"
  | .noProducer => "no_producer"
  | .transportError => "transport_error"
  | .unknown => "unknown"

/-- `hint_for()`. -/
def hintFor : Cause → String
  | .expectedStall =>
    "the CPU was stepping, so no GPU frame is being produced; resume " ++
    "execution (or accept that ticketed GPU calls will wait) before " ++
    "retrying"
  | .pairingBroken =>
    "a broadcast for the same event arrived while the call was pending, " ++
    "so the debugger is alive and the ticket pairing is what failed; " ++
    "this usually means the response went to a different waiter"
  | .noProducer =>
    "nothing was broadcast for THIS EVENT during the whole wait. That is " ++
    "NOT the same as 'the emulator is not rendering': an experiment " ++
    "(2026-10-02, cube.iso) measured a 59.4 fps render with an animated " ++
    "screen while this event never answered. So do not conclude the game " ++
    "is stuck. The frame producer works; the producer for this event does " ++
    "not. Check whether PPSSPP emits this event at all on the current " ++
    "build (see mcp_test_report/gpu_channel_root_cause.md), and do not " ++
    "wait for a load that has already finished"
  | .transportError => "the call failed for a reason other than a timeout"
  | .unknown => "the diagnostics did not carry enough to attribute this"

/-- The fragments of an error text that blame the transport. -/
def transportFragments : List String := ["closed", "disconnect", "decode", "json", "broken pipe"]

/-- `attribute_timeout()`. -/
def attributeTimeout (record : Option CallRecord) : Cause :=
  match record with
  | none => .unknown
  | some rec =>
    -- waiting was correct, whatever else is set
    if rec.steppingAtTimeout = some true then .expectedStall
    else if !rec.timedOut then .unknown
    else if rec.lastSameEventBroadcastAt.isSome then .pairingBroken
    else
      let err := rec.error.getD ""
      if err ≠ "" ∧ transportFragments.any (lowerContains err ·) then .transportError
      else .noProducer

/-- What an attribution was based on. -/
structure Evidence where
  timedOut : Option Bool
  steppingAtTimeout : Option Bool
  sawSameEventBroadcast : Bool
  elapsed : Option ℕ
  error : Option String

/-- The result of `describe()`. -/
structure Description where
  cause : Cause
  hint : String
  evidence : Evidence

/-- `describe()`. -/
def describe (record : Option CallRecord) : Description where
  cause := attributeTimeout record
  hint := hintFor (attributeTimeout record)
  evidence :=
    { timedOut := record.map CallRecord.timedOut
      steppingAtTimeout := record.bind CallRecord.steppingAtTimeout
      sawSameEventBroadcast := (record.bind CallRecord.lastSameEventBroadcastAt).isSome
      elapsed := record.bind CallRecord.elapsed
      error := record.bind CallRecord.error }

/-- `str` of a truth value. -/
def boolText (b : Bool) : String := if b then "True" else "False"

/-- `_attribution_suffix()`. -/
def attributionSuffix (diagnostics : Option CallDiagnostics) (event : String) : String :=
  match diagnostics.bind fun d => d.last (some event) with
  | none => ""
  | some rec =>
    let info := describe (some rec)
    if info.cause = .unknown then ""
    else
      "\n  cause: " ++ info.cause.text ++
      "\n  saw_same_event_broadcast: " ++ boolText info.evidence.sawSameEventBroadcast ++
      "\n  stepping_at_timeout: " ++ (info.evidence.steppingAtTimeout.map boolText).getD "None" ++
      "\n  next: " ++ info.hint

/-! ## The transport's own timeouts -/

/-- A number of seconds as a text. -/
structure Seconds where
  text : String
  /-- Digits, a sign, a point, an exponent, `inf` and `nan` are all there is. -/
  numeric : text.toList ⊆ "0123456789.e+-infa".toList

/-- `f"no response within {timeout}s"`. -/
def noResponse (timeout : Seconds) : String := "no response within " ++ timeout.text ++ "s"

variable {rec : CallRecord} {timeout : Seconds}

/-- The characters that the text of a timeout is made of. -/
def noResponseChars : List Char := "no response within 0123456789.e+-infas".toList

theorem mem_noResponse {c : Char} (h : c ∈ (noResponse timeout).toList) :
    c ∈ noResponseChars := by
  unfold noResponse at h
  rw [String.toList_append, String.toList_append, List.mem_append, List.mem_append] at h
  rcases h with (hfront | hnumber) | hback
  · exact (by decide : "no response within ".toList ⊆ noResponseChars) hfront
  · have hnumeric : "0123456789.e+-infa".toList ⊆ noResponseChars := by decide
    exact hnumeric (timeout.numeric hnumber)
  · exact (by decide : "s".toList ⊆ noResponseChars) hback

/-- Each fragment has a letter that the text of a timeout has not. -/
theorem not_lowerContains_noResponse {fragment : String} (h : fragment ∈ transportFragments) :
    lowerContains (noResponse timeout) fragment = false := by
  obtain ⟨letter, hmem, hletter⟩ : ∃ letter, letter ∈ fragment.toList ∧
      letter ∉ noResponseChars.map Char.toLower := by
    simp only [transportFragments, List.mem_cons, List.not_mem_nil, or_false] at h
    rcases h with rfl | rfl | rfl | rfl | rfl
    · exact ⟨'l', by decide, by decide⟩
    · exact ⟨'d', by decide, by decide⟩
    · exact ⟨'d', by decide, by decide⟩
    · exact ⟨'j', by decide, by decide⟩
    · exact ⟨'b', by decide, by decide⟩
  rw [lowerContains, decide_eq_false_iff_not]
  intro hinfix
  obtain ⟨c, hc, hlower⟩ := List.mem_map.mp (List.IsInfix.subset hinfix hmem)
  exact hletter (List.mem_map.mpr ⟨c, mem_noResponse hc, hlower⟩)

/-- The record of a timeout of the transport names a stalled CPU, a broken pairing or a missing
producer. -/
theorem attributeTimeout_of_noResponse (htimedOut : rec.timedOut = true)
    (herror : rec.error = some (noResponse timeout)) : attributeTimeout (some rec) =
      if rec.steppingAtTimeout = some true then .expectedStall
      else if rec.lastSameEventBroadcastAt.isSome then .pairingBroken else .noProducer := by
  have hnone : transportFragments.any (lowerContains (noResponse timeout) ·) = false :=
    List.any_eq_false.mpr fun _ hmem => ne_true_of_eq_false (not_lowerContains_noResponse hmem)
  simp [attributeTimeout, htimedOut, herror, hnone]

/-- A record that is not of a timeout has no cause. -/
theorem attributeTimeout_of_not_timedOut (htimedOut : rec.timedOut = false)
    (hstepping : rec.steppingAtTimeout = none) : attributeTimeout (some rec) = .unknown := by
  simp [attributeTimeout, htimedOut, hstepping]

end Diagnostics
