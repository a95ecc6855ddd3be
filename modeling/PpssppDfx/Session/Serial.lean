import PpssppDfx.Semantics.Serial
import PpssppDfx.Session.Manager

/-!
# The session table, one operation after the other

Here an operation is one indivisible change of the table: a touch, an update of the
connection flag, a start, a stop, an idle collection. A touch is legal only where its session
has a record, a start only where it has none, and an idle collection only if every session
that it removes is expired or idle there.

## Main definitions

* `Session.Op`, `Session.store` — the operations and what they do to the table

## Main results

* `serial_dropStart` — a start whose session nobody touched can be taken out of an order
* `serial_refold` — a start can save the number of its attempt later
* `execCount_eq` — every touch of a session counts
-/

set_option autoImplicit false

namespace Session

open Semantics Function

abbrev Table := SessionId → Option Record

/-- The clock and the processes when an operation looks at them. -/
structure Moment where
  now : ℕ
  procs : ℕ → Proc

/-- The record is expired or idle. -/
def Moment.inactive (w : Moment) (r : Record) : Prop :=
  (∃ pid, r.pid = some pid ∧ w.procs pid ≠ .alive) ∨ idleGcThreshold < w.now - r.lastActiveAt

/-- The record after a touch, which notes the connection if a transport is registered. -/
def Record.touched (r : Record) (now : ℕ) (live : Option Bool) : Record :=
  match live with
  | none => r.withUpdatedActivity now
  | some connected => (r.withUpdatedActivity now).withWsConnected connected

def Record.recover (r : Record) (attempt : ℕ) : Record := { r with recovered := some attempt }

inductive Op where
  | touch (sid : SessionId) (now : ℕ) (live : Option Bool)
  | updateWsConnected (sid : SessionId) (connected : Bool)
  /-- A start that leaves this record. -/
  | start (sid : SessionId) (record : Record)
  | stop (sid : SessionId)
  | gc (reclaimed : List SessionId) (moment : Moment)

/-- An operation as it was called, without what it found. -/
inductive OpCall where
  | touch (sid : SessionId) (now : ℕ) (live : Option Bool)
  | updateWsConnected (sid : SessionId) (connected : Bool)
  | start (sid : SessionId)
  | stop (sid : SessionId)
  | gc (reclaimed : List SessionId)
  deriving DecidableEq

namespace Op

def call : Op → OpCall
  | .touch sid now live => .touch sid now live
  | .updateWsConnected sid connected => .updateWsConnected sid connected
  | .start sid _ => .start sid
  | .stop sid => .stop sid
  | .gc reclaimed _ => .gc reclaimed

/-- What the operation does to the record of a session. -/
def effect (sid : SessionId) (old : Option Record) : Op → Option Record
  | .touch own now live => if sid = own then old.map fun r => r.touched now live else old
  | .updateWsConnected own connected =>
    if sid = own then old.map fun r => r.withWsConnected connected else old
  | .start own record => if sid = own then some record else old
  | .stop own => if sid = own then none else old
  | .gc reclaimed _ => if sid ∈ reclaimed then none else old

/-- Where the operation is legal. -/
def Legal (a : Table) : Op → Prop
  | .touch sid _ _ => (a sid).isSome = true
  | .updateWsConnected _ _ => True
  | .start sid record => a sid = none ∧ record.execCount = 0
  | .stop _ => True
  | .gc reclaimed moment => ∀ sid ∈ reclaimed, ∀ r, a sid = some r → moment.inactive r

end Op

namespace OpCall

/-- A touch of the session. -/
def touches (sid : SessionId) : OpCall → Bool
  | .touch own _ _ => own = sid
  | _ => false

/-- The operation removes the record of the session. -/
def removes (sid : SessionId) : OpCall → Bool
  | .stop own => own = sid
  | .gc reclaimed => sid ∈ reclaimed
  | _ => false

end OpCall

/-- The operations on the table. -/
def store : SerialSpec Table Op where
  apply op a := fun sid => op.effect sid (a sid)
  Legal op a := op.Legal a

variable {a b : Table} {op : Op} {ops before after : List Op} {sid : SessionId} {r r' : Record}
  {attempt : ℕ}

@[simp] theorem store_apply : store.apply op a sid = op.effect sid (a sid) := rfl

theorem touched_execCount {now : ℕ} {live : Option Bool} :
    (r.touched now live).execCount = r.execCount + 1 := by
  cases live <;> rfl

/-! ## Touches count -/

/-- The touches that a record counts, if there is one. -/
def touchesOf : Option Record → ℕ
  | none => 0
  | some r => r.execCount

/-- A record that is there after some operations, none of them its start, was there before,
and counts the touches among them. -/
theorem execCount_of_run (hstart : ∀ op ∈ ops, op.call ≠ .start sid)
    (hrun : store.run ops a sid = some r') :
    ∃ r, a sid = some r ∧ r'.execCount = r.execCount + (ops.map Op.call).countP
      (OpCall.touches sid) := by
  induction ops generalizing a with
  | nil => exact ⟨r', hrun, rfl⟩
  | cons op ops ih =>
    obtain ⟨r, hr, hcount⟩ := ih (fun op hop => hstart op (List.mem_cons_of_mem _ hop)) hrun
    rw [List.map_cons, List.countP_cons]
    have hfirst := hstart op List.mem_cons_self
    rw [store_apply] at hr
    -- only a touch of the session counts; a removal would leave no record behind
    cases op with
    | touch own now live =>
      by_cases hown : sid = own
      · subst hown
        simp only [Op.effect, if_true] at hr
        obtain ⟨r₀, hr₀, rfl⟩ := Option.map_eq_some_iff.mp hr
        refine ⟨r₀, hr₀, ?_⟩
        rw [hcount, touched_execCount]
        simp [Op.call, OpCall.touches]
        omega
      · simp only [Op.effect, if_neg hown] at hr
        exact ⟨r, hr, by simp [hcount, Op.call, OpCall.touches, Ne.symm hown]⟩
    | updateWsConnected own connected =>
      by_cases hown : sid = own
      · subst hown
        simp only [Op.effect, if_true] at hr
        obtain ⟨r₀, hr₀, rfl⟩ := Option.map_eq_some_iff.mp hr
        exact ⟨r₀, hr₀, hcount⟩
      · simp only [Op.effect, if_neg hown] at hr
        exact ⟨r, hr, hcount⟩
    | start own record =>
      have hown : sid ≠ own := fun hown => hfirst (congrArg OpCall.start hown.symm)
      simp only [Op.effect, if_neg hown] at hr
      exact ⟨r, hr, hcount⟩
    | stop own =>
      by_cases hown : sid = own
      · simp [Op.effect, hown] at hr
      · simp only [Op.effect, if_neg hown] at hr
        exact ⟨r, hr, hcount⟩
    | gc reclaimed moment =>
      by_cases hown : sid ∈ reclaimed
      · simp [Op.effect, hown] at hr
      · simp only [Op.effect, if_neg hown] at hr
        exact ⟨r, hr, hcount⟩

/-- In an order that never removes a session, each of its touches counts once. -/
theorem execCount_eq (hserial : store.Serial ops a)
    (hkept : ∀ op ∈ ops, op.call.removes sid = false) :
    touchesOf (store.run ops a sid) =
      touchesOf (a sid) + (ops.map Op.call).countP (OpCall.touches sid) := by
  -- the table changes along the order, so the induction is over all tables
  induction ops generalizing a with
  | nil => rfl
  | cons op ops ih =>
    obtain ⟨hlegal, hrest⟩ := SerialSpec.serial_cons.mp hserial
    rw [SerialSpec.run_cons, ih hrest fun op hop => hkept op (List.mem_cons_of_mem _ hop),
      List.map_cons, List.countP_cons, store_apply]
    have hfirst := hkept op List.mem_cons_self
    cases op with
    | touch own now live =>
      by_cases hown : sid = own
      · subst hown
        obtain ⟨r, hr⟩ := Option.isSome_iff_exists.mp hlegal
        simp [Op.effect, hr, touchesOf, touched_execCount, Op.call, OpCall.touches]
        omega
      · simp [Op.effect, hown, Op.call, OpCall.touches, Ne.symm hown]
    | updateWsConnected own connected =>
      by_cases hown : sid = own
      · subst hown
        cases hr : a sid <;> simp [Op.effect, touchesOf, Op.call, OpCall.touches,
          Record.withWsConnected]
      · simp [Op.effect, hown, Op.call, OpCall.touches]
    | start own record =>
      by_cases hown : sid = own
      · subst hown
        obtain ⟨hnone, hcount⟩ := hlegal
        simp [Op.effect, hnone, touchesOf, hcount, Op.call, OpCall.touches]
      · simp [Op.effect, hown, Op.call, OpCall.touches]
    | stop own =>
      have hown : sid ≠ own := by
        rintro rfl
        simp [Op.call, OpCall.removes] at hfirst
      simp [Op.effect, hown, Op.call, OpCall.touches]
    | gc reclaimed moment =>
      have hown : sid ∉ reclaimed := by simpa [Op.call, OpCall.removes] using hfirst
      simp [Op.effect, hown, Op.call, OpCall.touches]

/-! ## Moving a start -/

/-- Two tables that differ in the record of one session at most, as `change` says. -/
def Differ (sid : SessionId) (change : Option Record → Option Record) (a b : Table) : Prop :=
  b = update a sid (change (a sid))

theorem Differ.self {change : Option Record → Option Record} (h : Differ sid change a b) :
    b sid = change (a sid) := by
  rw [h, update_self]

theorem Differ.other {change : Option Record → Option Record} (h : Differ sid change a b)
    {other : SessionId} (hother : other ≠ sid) : b other = a other := by
  rw [h, update_of_ne hother]

/-- An operation keeps a difference that commutes with what it does to the record. -/
theorem Differ.apply {change : Option Record → Option Record} (h : Differ sid change a b)
    (hcomm : op.effect sid (change (a sid)) = change (op.effect sid (a sid))) :
    Differ sid change (store.apply op a) (store.apply op b) := by
  funext other
  by_cases hother : other = sid
  · subst hother
    rw [update_self, store_apply, store_apply, h.self]
    exact hcomm
  · rw [update_of_ne hother, store_apply, store_apply, h.other hother]

/-- A start is taken out of an order in which nobody touches its session after it. -/
theorem serial_dropStart (hserial : store.Serial (before ++ .start sid r :: after) a)
    (hstart : ∀ op ∈ after, op.call ≠ .start sid)
    (htouch : ∀ op ∈ after, op.call.touches sid = false) :
    store.Serial (before ++ after) a ∧
      Differ sid (fun _ => none) (store.run (before ++ .start sid r :: after) a)
        (store.run (before ++ after) a) := by
  obtain ⟨hbefore, hlegal, hafter⟩ := SerialSpec.serial_append.mp hserial
  rw [SerialSpec.run_append, SerialSpec.run_cons, SerialSpec.run_append, SerialSpec.serial_append,
    and_assoc]
  -- behind the start both orders run alike, but for the record of the session
  refine ⟨hbefore, hafter.simulate (R := Differ sid fun _ => none) ?_ ?_⟩
  · intro op hop b c hbc hop'
    refine ⟨?_, hbc.apply ?_⟩
    · cases op with
      | touch own now live =>
        have hown : own ≠ sid := by
          rintro rfl
          simpa [Op.call, OpCall.touches] using htouch _ hop
        simpa only [store, Op.Legal, hbc.other hown] using hop'
      | updateWsConnected own connected => trivial
      | start own record =>
        have hown : own ≠ sid := fun hown => hstart _ hop (congrArg OpCall.start hown)
        simpa only [store, Op.Legal, hbc.other hown] using hop'
      | stop own => trivial
      | gc reclaimed moment =>
        intro other hother record hrecord
        by_cases hsid : other = sid
        · subst hsid
          rw [hbc.self] at hrecord
          exact nomatch hrecord
        · rw [hbc.other hsid] at hrecord
          exact hop' other hother record hrecord
    · cases op with
      | start own record =>
        have hown : sid ≠ own := fun hown => hstart _ hop (congrArg OpCall.start hown.symm)
        simp [Op.effect, hown]
      | touch own now live => simp [Op.effect]
      | updateWsConnected own connected => simp [Op.effect]
      | stop own => simp [Op.effect]
      | gc reclaimed moment => simp [Op.effect]
  · funext other
    by_cases hother : other = sid
    · subst hother
      rw [update_self]
      exact hlegal.1
    · rw [update_of_ne hother, store_apply]
      simp [Op.effect, hother]

/-- The record of a start gets the number of its attempt when the start saves it, or later. -/
theorem serial_refold (attempt : ℕ) (hserial : store.Serial (before ++ .start sid r :: after) a)
    (hstart : ∀ op ∈ after, op.call ≠ .start sid) :
    store.Serial (before ++ .start sid (r.recover attempt) :: after) a ∧
      Differ sid (Option.map fun r => r.recover attempt)
        (store.run (before ++ .start sid r :: after) a)
        (store.run (before ++ .start sid (r.recover attempt) :: after) a) := by
  obtain ⟨hbefore, hlegal, hafter⟩ := SerialSpec.serial_append.mp hserial
  rw [SerialSpec.run_append, SerialSpec.run_cons, SerialSpec.run_append, SerialSpec.run_cons,
    SerialSpec.serial_append, and_assoc]
  refine ⟨hbefore, ?_⟩
  -- no later operation looks at what the fold changes
  have hsim := hafter.simulate (R := Differ sid (Option.map fun r => r.recover attempt))
    (b := store.apply (.start sid (r.recover attempt)) (store.run before a)) ?_ ?_
  · exact ⟨⟨hlegal, hsim.1⟩, hsim.2⟩
  · intro op hop b c hbc hop'
    refine ⟨?_, hbc.apply ?_⟩
    · cases op with
      | touch own now live =>
        by_cases hown : own = sid
        · subst hown
          simpa only [store, Op.Legal, hbc.self, Option.isSome_map] using hop'
        · simpa only [store, Op.Legal, hbc.other hown] using hop'
      | updateWsConnected own connected => trivial
      | start own record =>
        have hown : own ≠ sid := fun hown => hstart _ hop (congrArg OpCall.start hown)
        simpa only [store, Op.Legal, hbc.other hown] using hop'
      | stop own => trivial
      | gc reclaimed moment =>
        intro other hother record hrecord
        by_cases hsid : other = sid
        · subst hsid
          rw [hbc.self] at hrecord
          obtain ⟨record₀, hrecord₀, rfl⟩ := Option.map_eq_some_iff.mp hrecord
          exact hop' other hother record₀ hrecord₀
        · rw [hbc.other hsid] at hrecord
          exact hop' other hother record hrecord
    · cases op with
      | start own record =>
        have hown : sid ≠ own := fun hown => hstart _ hop (congrArg OpCall.start hown.symm)
        simp [Op.effect, hown]
      | touch own now live =>
        simp only [Op.effect]
        split
        · rw [Option.map_map, Option.map_map]
          cases live <;> rfl
        · rfl
      | updateWsConnected own connected =>
        simp only [Op.effect]
        split
        · rw [Option.map_map, Option.map_map]
          rfl
        · rfl
      | stop own =>
        simp only [Op.effect]
        split <;> rfl
      | gc reclaimed moment =>
        simp only [Op.effect]
        split <;> rfl
  · funext other
    by_cases hother : other = sid
    · subst hother
      simp [Op.effect]
    · rw [update_of_ne hother, store_apply, store_apply]
      simp [Op.effect, hother]

end Session
