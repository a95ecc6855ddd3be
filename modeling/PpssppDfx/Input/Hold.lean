import Mathlib.Data.List.Basic
import PpssppDfx.Python.Text
import PpssppDfx.Python.Value

/-!
# Holding buttons

`hold_buttons` sends the emulator the buttons of a combination, each as pressed, or all of its
buttons as released. The emulator changes the buttons that a request names and no others. So a
combination is added to what is already held, and only a release takes anything away.

## Main definitions

* `Input.holdButtons` — the request that a call sends, or its refusal
* `Input.Emulator` — what is known about the receiver
* `Input.Emulator.after` — the receiver's state after some calls

## Main results

* `held_after_iff` — what is held after some calls
* `holdsLast_iff` — when it is what the last call named
-/

set_option autoImplicit false

namespace Input

open Python

inductive PSPButton where
  | cross | circle | triangle | square | up | down | left | right | start | select
  | home | screen | note | ltrigger | rtrigger | hold | wlan | remoteHold | volUp | volDown
  | disc | memstick | forward | back | playpause
  deriving DecidableEq

def PSPButton.name : PSPButton → String
  | cross => "cross"
  | circle => "circle"
  | triangle => "triangle"
  | square => "square"
  | up => "up"
  | down => "down"
  | left => "left"
  | right => "right"
  | start => "start"
  | select => "select"
  | home => "home"
  | screen => "screen"
  | note => "note"
  | ltrigger => "ltrigger"
  | rtrigger => "rtrigger"
  | hold => "hold"
  | wlan => "wlan"
  | remoteHold => "remote_hold"
  | volUp => "vol_up"
  | volDown => "vol_down"
  | disc => "disc"
  | memstick => "memstick"
  | forward => "forward"
  | back => "back"
  | playpause => "playpause"

/-- `get_args(PSPButton)`. -/
def allPSPButtons : List PSPButton :=
  [.cross, .circle, .triangle, .square, .up, .down, .left, .right, .start, .select,
   .home, .screen, .note, .ltrigger, .rtrigger, .hold, .wlan, .remoteHold, .volUp, .volDown,
   .disc, .memstick, .forward, .back, .playpause]

/-- `PPSSPP_ALL_BUTTONS`. -/
def ppssppAllButtons : List String := allPSPButtons.map PSPButton.name

/-! ## Combinations -/

/-- `[t.strip() for t in buttons.split("|") if t.strip()]`. -/
def tokens (buttons : String) : List String :=
  (((buttons.toList.splitOnP (· == '|')).map stripBlank).filter (!·.isEmpty)).map String.ofList

/-- `buttons and buttons.strip()`, as a condition. -/
def isCombination (buttons : String) : Bool := !(stripBlank buttons.toList).isEmpty

/-- The text of a tuple of texts, which has two at least. -/
def tupleText (items : List String) : String :=
  "(" ++ ", ".intercalate (items.map strRepr) ++ ")"

/-- `_validate_buttons_combo`: the message of its refusal. -/
def validateButtonsCombo (buttons : String) : Option String :=
  if isCombination buttons = false then some "buttons must be a non-empty string"
  else if tokens buttons = [] then some "buttons must contain at least one button name"
  else
    let invalid := (tokens buttons).filter (· ∉ ppssppAllButtons)
    if invalid ≠ [] then
      some ("invalid button(s) " ++ reprValue (.list (invalid.map .str)) ++ "; expected each in " ++
        tupleText ppssppAllButtons)
    else none

/-- The object of `input.buttons.send`: names of buttons and whether they are pressed. -/
abbrev Request := List (String × Bool)

/-- The object for a combination, or the one that releases every button. -/
def buttonsDict (buttons : String) : Request :=
  if tokens buttons ≠ [] then (tokens buttons).eraseDups.map fun t => (t, true)
  else ppssppAllButtons.map fun name => (name, false)

/-- `hold_buttons`: what is sent, or the message of the `ArgsInvalid` that is raised before
anything is. -/
def holdButtons (buttons : String) : Except String Request :=
  -- only a combination is validated; a blank text is the way to release
  if isCombination buttons then
    match validateButtonsCombo buttons with
    | some message => .error message
    | none => .ok (buttonsDict buttons)
  else .ok (buttonsDict buttons)

/-- The call is not refused. -/
def accepted (buttons : String) : Bool := (holdButtons buttons).isOk

/-- The call names the button. -/
def Names (buttons : String) (b : PSPButton) : Prop := b.name ∈ tokens buttons

instance (buttons : String) (b : PSPButton) : Decidable (Names buttons b) :=
  inferInstanceAs (Decidable (b.name ∈ tokens buttons))

/-! ## The emulator -/

/-- The receiver of the requests: which buttons are held, and what a request does to them. -/
structure Emulator (σ : Type) where
  held : σ → PSPButton → Bool
  send : σ → Request → σ
  held_of_named : ∀ s request b pressed, request.lookup b.name = some pressed →
    held (send s request) b = pressed
  held_of_not_named : ∀ s request b, request.lookup b.name = none →
    held (send s request) b = held s b

namespace Emulator

variable {σ : Type} (e : Emulator σ)

/-- The state after a call, which reaches the emulator unless it is refused. -/
def call (s : σ) (buttons : String) : σ :=
  match holdButtons buttons with
  | .ok request => e.send s request
  | .error _ => s

/-- The state after some calls. -/
def after (s : σ) (calls : List String) : σ := calls.foldl e.call s

/-- What is held after the calls is what the last of them named, refused ones apart. -/
def HoldsLast (s : σ) (calls : List String) : Prop :=
  ∀ last, (calls.filter accepted).getLast? = some last →
    ∀ b, e.held (e.after s calls) b = true ↔ Names last b

end Emulator

/-- The calls after the last release. -/
def sinceRelease (calls : List String) : List String :=
  (calls.reverse.takeWhile isCombination).reverse

/-- One of the calls is a release. -/
def released (calls : List String) : Bool := calls.any (!isCombination ·)

/-! ## What a request says of a button -/

variable {buttons : String} {b : PSPButton}

theorem mem_allPSPButtons (b : PSPButton) : b ∈ allPSPButtons := by
  cases b <;> decide

theorem name_mem_all (b : PSPButton) : b.name ∈ ppssppAllButtons :=
  List.mem_map_of_mem (mem_allPSPButtons b)

/-- A list of names with one value gives this value to the names in it. -/
theorem lookup_map_const (names : List String) (name : String) (pressed : Bool) :
    (names.map fun t => (t, pressed)).lookup name =
      if name ∈ names then some pressed else none := by
  induction names with
  | nil => rfl
  | cons t rest ih =>
    rw [List.map_cons, List.lookup_cons, ih]
    by_cases hname : name = t
    · simp [hname]
    · rw [beq_false_of_ne hname]
      simp [hname]

/-- A text of blanks has no tokens. -/
theorem tokens_of_release (h : isCombination buttons = false) : tokens buttons = [] := by
  have hstripped : stripBlank buttons.toList = [] := by
    simpa [isCombination] using h
  have hwhole : buttons.toList.splitOnP (· == '|') = [buttons.toList] := by
    refine List.splitOnP_eq_singleton fun c hc => ?_
    have hblank := isBlank_of_stripBlank hstripped c hc
    rw [beq_eq_false_iff_ne]
    rintro rfl
    exact absurd hblank (by decide)
  rw [tokens, hwhole, List.map_singleton, hstripped]
  rfl

/-- The request of a release names every button as released. -/
theorem lookup_release (h : isCombination buttons = false) :
    (buttonsDict buttons).lookup b.name = some false := by
  rw [buttonsDict, if_neg (not_not.mpr (tokens_of_release h)), lookup_map_const,
    if_pos (name_mem_all b)]

/-- The request of a combination names its buttons as pressed, and no others. -/
theorem lookup_combination (h : tokens buttons ≠ []) :
    (buttonsDict buttons).lookup b.name = if Names buttons b then some true else none := by
  rw [buttonsDict, if_pos h, lookup_map_const]
  exact if_congr List.mem_eraseDups rfl rfl

/-- What is sent, unless the call is refused. -/
theorem holdButtons_of_accepted (h : accepted buttons = true) :
    holdButtons buttons = .ok (buttonsDict buttons) := by
  unfold accepted holdButtons at *
  split
  · rename_i hcombination
    cases hvalid : validateButtonsCombo buttons with
    | none => rfl
    | some message =>
      rw [if_pos hcombination, hvalid] at h
      cases h
  · rfl

/-- A combination that is not refused names a button. -/
theorem tokens_ne_nil (h : accepted buttons = true) (hcombination : isCombination buttons = true) :
    tokens buttons ≠ [] := by
  intro hnil
  have hmessage : validateButtonsCombo buttons =
      some "buttons must contain at least one button name" := by
    rw [validateButtonsCombo, if_neg (by simp [hcombination]), if_pos hnil]
  rw [accepted, holdButtons, if_pos hcombination, hmessage] at h
  cases h

theorem accepted_of_release (h : isCombination buttons = false) : accepted buttons = true := by
  rw [accepted, holdButtons, if_neg (by simp [h])]
  rfl

/-! ## What is held -/

theorem sinceRelease_concat (calls : List String) (c : String) :
    sinceRelease (calls ++ [c]) = if isCombination c then sinceRelease calls ++ [c] else [] := by
  rw [sinceRelease, List.reverse_append, List.reverse_singleton, List.singleton_append,
    List.takeWhile_cons]
  split
  · rw [List.reverse_cons, sinceRelease]
  · rfl

theorem released_concat (calls : List String) (c : String) :
    released (calls ++ [c]) = (released calls || !isCombination c) := by
  simp [released]

namespace Emulator

variable {σ : Type} {e : Emulator σ} {s : σ} {calls : List String} {c : String}

theorem after_concat : e.after s (calls ++ [c]) = e.call (e.after s calls) c := by
  rw [after, List.foldl_append]
  rfl

/-- A release lets go of every button. -/
theorem held_call_release (h : isCombination c = false) : e.held (e.call s c) b = false := by
  rw [call, holdButtons_of_accepted (accepted_of_release h)]
  exact e.held_of_named s _ b false (lookup_release h)

/-- A combination is added to what is held. -/
theorem held_call_combination (haccepted : accepted c = true) (h : isCombination c = true) :
    e.held (e.call s c) b = true ↔ Names c b ∨ e.held s b = true := by
  have hlookup := lookup_combination (b := b) (tokens_ne_nil haccepted h)
  rw [call, holdButtons_of_accepted haccepted]
  by_cases hnames : Names c b
  · rw [if_pos hnames] at hlookup
    simp [e.held_of_named s _ b true hlookup, hnames]
  · rw [if_neg hnames] at hlookup
    simp [e.held_of_not_named s _ b hlookup, hnames]

theorem call_of_refused (h : accepted c = false) : e.call s c = s := by
  rw [accepted] at h
  rw [call]
  cases hresult : holdButtons c with
  | ok request => rw [hresult] at h; cases h
  | error message => rfl

/-- A button is held if a call since the last release named it, or if it was held from the
start and no call was a release. -/
theorem held_after_iff : e.held (e.after s calls) b = true ↔
    (∃ c ∈ sinceRelease calls, accepted c = true ∧ Names c b) ∨
      released calls = false ∧ e.held s b = true := by
  -- by induction on the calls from the last one back, which acts on what the others have left
  induction calls using List.reverseRecOn with
  | nil => simp [after, sinceRelease, released]
  | append_singleton calls c ih =>
    rw [after_concat, sinceRelease_concat, released_concat]
    by_cases h : isCombination c = true
    · rw [if_pos h]
      cases haccepted : accepted c with
      -- a combination that is refused is no release either, and changes nothing
      | false =>
        rw [call_of_refused haccepted, ih]
        simp [h, haccepted]
      | true =>
        rw [held_call_combination haccepted h, ih]
        simp [h, haccepted, or_comm, or_left_comm]
    · have hrelease : isCombination c = false := Bool.eq_false_iff.mpr h
      simp [held_call_release hrelease, hrelease]

/-- The last call that is not refused comes after the last release, if it names a button. -/
theorem mem_sinceRelease {last : String} (hlast : (calls.filter accepted).getLast? = some last)
    (hnames : Names last b) : last ∈ sinceRelease calls := by
  -- what follows this call is refused, so none of it is a release
  induction calls using List.reverseRecOn with
  | nil => cases hlast
  | append_singleton calls c ih =>
    rw [List.filter_append] at hlast
    rw [sinceRelease_concat]
    by_cases haccepted : accepted c = true
    · have heq : c = last := by simpa [haccepted] using hlast
      subst heq
      have hcombination : isCombination c = true := by
        by_contra h
        have hnil := tokens_of_release (Bool.eq_false_iff.mpr h)
        rw [Names, hnil] at hnames
        cases hnames
      rw [if_pos hcombination]
      exact List.mem_append_right _ List.mem_cons_self
    · have hcombination : isCombination c = true := by
        by_contra h
        exact haccepted (accepted_of_release (Bool.eq_false_iff.mpr h))
      rw [if_pos hcombination]
      exact List.mem_append_left _ (ih (by simpa [haccepted] using hlast))

/-- The last call that is not refused is itself not refused. -/
theorem accepted_last {last : String} (hlast : (calls.filter accepted).getLast? = some last) :
    accepted last = true :=
  (List.mem_filter.mp (List.mem_of_getLast? hlast)).2

/-- What is held is what the last call named exactly when it named all that the calls since the
last release named and, without a release, all that was held from the start. -/
theorem holdsLast_iff (e : Emulator σ) (s : σ) (calls : List String) :
    e.HoldsLast s calls ↔ ∀ last, (calls.filter accepted).getLast? = some last →
      (∀ c ∈ sinceRelease calls, accepted c = true → ∀ b, Names c b → Names last b) ∧
        (released calls = false → ∀ b, e.held s b = true → Names last b) := by
  constructor
  · intro h last hlast
    refine ⟨fun c hc haccepted b hnames => ?_, fun hnone b hheld => ?_⟩
    · exact (h last hlast b).mp (held_after_iff.mpr (Or.inl ⟨c, hc, haccepted, hnames⟩))
    · exact (h last hlast b).mp (held_after_iff.mpr (Or.inr ⟨hnone, hheld⟩))
  -- the last call itself is one of those since the last release
  · intro h last hlast b
    obtain ⟨hcalls, hstart⟩ := h last hlast
    constructor
    · intro hheld
      rcases held_after_iff.mp hheld with ⟨c, hc, haccepted, hnames⟩ | ⟨hnone, hheld⟩
      · exact hcalls c hc haccepted b hnames
      · exact hstart hnone b hheld
    · intro hnames
      exact held_after_iff.mpr
        (Or.inl ⟨last, mem_sinceRelease hlast hnames, accepted_last hlast, hnames⟩)

end Emulator

/-! ## Two calls -/

/-- An emulator that keeps the state of each button. -/
def buttonTable : Emulator (PSPButton → Bool) where
  held s := s
  send s request b := (request.lookup b.name).getD (s b)
  held_of_named s request b pressed h := by simp [h]
  held_of_not_named s request b h := by simp [h]

/-- A second combination does not replace the first. -/
theorem not_holdsLast_second :
    ¬ ∀ (σ : Type) (e : Emulator σ) (s : σ) (calls : List String), e.HoldsLast s calls := by
  intro hall
  have hlast : (["cross", "circle"].filter accepted).getLast? = some "circle" := by decide
  have hheld := hall _ buttonTable (fun _ => false) ["cross", "circle"] "circle" hlast .cross
  exact absurd (hheld.mp (by decide)) (by decide)

end Input
