import PpssppDfx.Semantics.Ring

/-!
# The audit trail of ticketed calls

The transport keeps a record of each ticketed call: when it was issued, how it was settled, and
when a broadcast of the same event last arrived while it was in flight. The records are in a
ring, so a long session forgets its old calls, and a call can be pending for longer than the
ring remembers it.

Times are whole microseconds of the monotonic clock. A record is told from the others by the
number of its call, where the code has the object.

## Main definitions

* `Diagnostics.CallRecord` — the record of one call
* `Diagnostics.CallDiagnostics` — the ring and its operations
* `Diagnostics.heard` — the broadcasts of an event before a call is settled

## Main results

* `Diagnostics.records_run` — the ring holds the newest of all records that were begun
* `Diagnostics.ring_audited` — what each record in the ring says about the past of its call
-/

set_option autoImplicit false

namespace Diagnostics

open Semantics

/-- The lifecycle of one ticketed call. -/
structure CallRecord where
  event : String
  ticket : String
  issuedAt : ℕ
  elapsed : Option ℕ
  settled : Bool
  timedOut : Bool
  error : Option String
  steppingAtTimeout : Option Bool
  lastSameEventBroadcastAt : Option ℕ
  deriving DecidableEq

/-- `DEFAULT_CAPACITY`. -/
def defaultCapacity : ℕ := 200

/-- The ring of the records, the oldest first. A capacity below one is refused. -/
structure CallDiagnostics where
  capacity : ℕ
  positive : 0 < capacity
  records : List (ℕ × CallRecord)

/-- `CallDiagnostics(capacity)`; `none` is its `ValueError`. -/
def CallDiagnostics.new (capacity : ℤ) : Option CallDiagnostics :=
  if h : capacity < 1 then none else some ⟨capacity.toNat, by omega, []⟩

/-- What the transport reports. -/
inductive Op where
  | begin (k : ℕ) (event ticket : String) (now : ℕ)
  | settle (k : ℕ) (timedOut : Bool) (error : Option String) (stepping : Option Bool) (now : ℕ)
  | noteBroadcast (event : String) (now : ℕ)

/-- A call that is in flight. -/
def CallRecord.pending (event ticket : String) (now : ℕ) : CallRecord where
  event := event
  ticket := ticket
  issuedAt := now
  elapsed := none
  settled := false
  timedOut := false
  error := none
  steppingAtTimeout := none
  lastSameEventBroadcastAt := none

/-- `settle()` of one record. -/
def CallRecord.settle (rec : CallRecord) (timedOut : Bool) (error : Option String)
    (stepping : Option Bool) (now : ℕ) : CallRecord :=
  { rec with
    elapsed := some (now - rec.issuedAt)
    settled := true
    timedOut := timedOut
    error := error
    steppingAtTimeout := stepping }

/-- What `note_broadcast()` does to one record. -/
def CallRecord.note (rec : CallRecord) (event : String) (now : ℕ) : CallRecord :=
  if !rec.settled && rec.event == event then { rec with lastSameEventBroadcastAt := some now }
  else rec

/-- What an operation makes of the record of call `i`. -/
def Op.track (op : Op) (i : ℕ) (rec : CallRecord) : CallRecord :=
  match op with
  | .begin _ _ _ _ => rec
  | .settle k timedOut error stepping now =>
    if i = k then rec.settle timedOut error stepping now else rec
  | .noteBroadcast event now => rec.note event now

/-- An operation on the ring. -/
def Op.ringOp : Op → RingOp (ℕ × CallRecord)
  | .begin k event ticket now => .push (k, .pending event ticket now)
  | op => .update fun entry => (entry.1, op.track entry.1 entry.2)

/-- `begin()`, `settle()` or `note_broadcast()`. -/
def CallDiagnostics.apply (d : CallDiagnostics) (op : Op) : CallDiagnostics :=
  { d with records := op.ringOp.onRing d.capacity d.records }

/-- A list of operations. -/
def CallDiagnostics.run (d : CallDiagnostics) (ops : List Op) : CallDiagnostics :=
  ops.foldl CallDiagnostics.apply d

/-- `items[-limit:]`; a limit of zero takes everything, and a negative one counts from the
front. -/
def lastItems {α : Type} (items : List α) (limit : ℤ) : List α :=
  if limit ≤ 0 then items.drop (-limit).toNat else items.rtake limit.toNat

/-- `recent()`. -/
def CallDiagnostics.recent (d : CallDiagnostics) (event : Option String) (limit : Option ℤ) :
    List CallRecord :=
  let items := (d.records.map Prod.snd).filter fun rec => event.all (rec.event == ·)
  match limit with
  | none => items
  | some limit => lastItems items limit

/-- `last()`. -/
def CallDiagnostics.last (d : CallDiagnostics) (event : Option String) : Option CallRecord :=
  ((d.records.map Prod.snd).filter fun rec => event.all (rec.event == ·)).getLast?

/-- `timeouts()`. -/
def CallDiagnostics.timeouts (d : CallDiagnostics) (event : Option String) : List CallRecord :=
  (d.recent event none).filter CallRecord.timedOut

/-! ## The ring -/

variable {d : CallDiagnostics} {ops front rest : List Op} {k : ℕ} {rec : CallRecord}
  {event ticket : String} {now : ℕ}

/-- Every record that was begun, the oldest first, as the operations after it left it. -/
def trail (ops : List Op) : List (ℕ × CallRecord) := RingOp.kept (ops.map Op.ringOp)

@[simp] theorem capacity_apply (op : Op) : (d.apply op).capacity = d.capacity := rfl

theorem records_foldl (ops : List Op) : (d.run ops).capacity = d.capacity ∧
    (d.run ops).records = (ops.map Op.ringOp).foldl (RingOp.onRing d.capacity) d.records := by
  induction ops generalizing d with
  | nil => exact ⟨rfl, rfl⟩
  | cons op rest ih =>
    obtain ⟨hcap, hrec⟩ := ih (d := d.apply op)
    exact ⟨hcap, hrec⟩

/-- The ring holds the newest of all records that were begun, each as if none had ever been
dropped. -/
theorem records_run (h : d.records = []) (ops : List Op) :
    (d.run ops).records = (trail ops).rtake d.capacity := by
  rw [(records_foldl ops).2, h, RingOp.foldl_onRing_eq_kept d.positive, trail]

/-! ## What a record says -/

/-- The operation settles call `k`. -/
def Op.settles (k : ℕ) : Op → Bool
  | .settle i _ _ _ _ => k == i
  | _ => false

/-- How an operation settles call `k`, which was issued at a time. -/
def Op.outcome (k issuedAt : ℕ) : Op → Option (Bool × Option String × Option Bool × Option ℕ)
  | .settle i timedOut error stepping now =>
    if k = i then some (timedOut, error, stepping, some (now - issuedAt)) else none
  | _ => none

/-- What a record says about the end of its call. -/
def CallRecord.outcome (rec : CallRecord) :
    Option (Bool × Option String × Option Bool × Option ℕ) :=
  if rec.settled then some (rec.timedOut, rec.error, rec.steppingAtTimeout, rec.elapsed) else none

/-- The time of a broadcast of an event. -/
def Op.broadcastAt (event : String) : Op → Option ℕ
  | .noteBroadcast e now => if event = e then some now else none
  | _ => none

/-- When broadcasts of an event arrive before call `k` is settled. -/
def heard (k : ℕ) (event : String) (ops : List Op) : List ℕ :=
  (ops.takeWhile fun op => !op.settles k).filterMap (Op.broadcastAt event)

/-- What the operations after a call was begun make of its record. -/
def trackAll (k : ℕ) (ops : List Op) (rec : CallRecord) : CallRecord :=
  ops.foldl (fun rec op => op.track k rec) rec

theorem later_ringOp (ops : List Op) (entry : ℕ × CallRecord) :
    RingOp.later (ops.map Op.ringOp) entry = (entry.1, trackAll entry.1 ops entry.2) := by
  induction ops generalizing entry with
  | nil => rfl
  | cons op rest ih =>
    cases op with
    | begin k event ticket now => exact ih entry
    | settle k timedOut error stepping now => exact ih _
    | noteBroadcast event now => exact ih _

/-- A record of the trail was begun by an operation, and shows the operations after it. -/
theorem mem_trail_iff : (k, rec) ∈ trail ops ↔ ∃ front event ticket now rest,
    ops = front ++ .begin k event ticket now :: rest ∧
      rec = trackAll k rest (.pending event ticket now) := by
  induction ops with
  | nil => simp [trail, RingOp.kept]
  | cons op ops ih =>
    have htail : (k, rec) ∈ trail ops → ∃ front event ticket now rest,
        op :: ops = front ++ .begin k event ticket now :: rest ∧
          rec = trackAll k rest (.pending event ticket now) := fun hmem => by
      obtain ⟨front, event, ticket, now, rest, rfl, hrec⟩ := ih.mp hmem
      exact ⟨op :: front, event, ticket, now, rest, rfl, hrec⟩
    constructor
    · intro hmem
      cases op with
      | begin i event ticket now =>
        rcases List.mem_cons.mp hmem with heq | hmem
        · rw [later_ringOp, Prod.mk.injEq] at heq
          obtain ⟨rfl, rfl⟩ := heq
          exact ⟨[], event, ticket, now, ops, rfl, rfl⟩
        · exact htail hmem
      | settle i timedOut error stepping now => exact htail hmem
      | noteBroadcast event now => exact htail hmem
    · rintro ⟨front, event, ticket, now, rest, hops, rfl⟩
      cases front with
      | nil =>
        obtain ⟨rfl, rfl⟩ := List.cons.inj hops
        refine List.mem_cons.mpr (Or.inl ?_)
        rw [later_ringOp]
      | cons first front =>
        obtain ⟨rfl, rfl⟩ := List.cons.inj hops
        have hmem := ih.mpr ⟨front, event, ticket, now, rest, rfl, rfl⟩
        cases op with
        | begin i event ticket now => exact List.mem_cons_of_mem _ hmem
        | settle i timedOut error stepping now => exact hmem
        | noteBroadcast event now => exact hmem

/-- What the record of a call says, given what was reported after the call was begun. -/
structure Audited (k : ℕ) (rest : List Op) (rec : CallRecord) : Prop where
  /-- It shows the last settlement. -/
  outcome : rec.outcome = (rest.filterMap (Op.outcome k rec.issuedAt)).getLast?
  /-- It shows the last broadcast of its event that came while the call was in flight. -/
  broadcast : rec.lastSameEventBroadcastAt = (heard k rec.event rest).getLast?

@[simp] theorem track_settle (i : ℕ) (timedOut : Bool) (error : Option String)
    (stepping : Option Bool) (rec : CallRecord) :
    (Op.settle i timedOut error stepping now).track k rec =
      if k = i then rec.settle timedOut error stepping now else rec := rfl

@[simp] theorem track_note (e : String) :
    (Op.noteBroadcast e now).track k rec = rec.note e now := rfl

@[simp] theorem settled_note (e : String) : (rec.note e now).settled = rec.settled := by
  unfold CallRecord.note
  split <;> rfl

@[simp] theorem event_note (e : String) : (rec.note e now).event = rec.event := by
  unfold CallRecord.note
  split <;> rfl

@[simp] theorem ticket_note (e : String) : (rec.note e now).ticket = rec.ticket := by
  unfold CallRecord.note
  split <;> rfl

@[simp] theorem issuedAt_note (e : String) : (rec.note e now).issuedAt = rec.issuedAt := by
  unfold CallRecord.note
  split <;> rfl

@[simp] theorem outcome_note (e : String) : (rec.note e now).outcome = rec.outcome := by
  unfold CallRecord.note
  split <;> rfl

/-- A record is settled once some operation has settled its call. -/
theorem settled_track (op : Op) :
    (op.track k rec).settled = (rec.settled || op.settles k) := by
  cases op with
  | begin i event ticket now => simp [Op.track, Op.settles]
  | settle i timedOut error stepping now =>
    by_cases hk : k = i
    · simp [Op.settles, hk, CallRecord.settle]
    · simp [Op.settles, hk]
  | noteBroadcast event now => simp [Op.settles]

theorem trackAll_concat (op : Op) :
    trackAll k (rest ++ [op]) rec = op.track k (trackAll k rest rec) := by
  simp [trackAll]

theorem settled_trackAll (rest : List Op) :
    (trackAll k rest (.pending event ticket now)).settled = rest.any (Op.settles k) := by
  induction rest using List.reverseRecOn with
  | nil => rfl
  | append_singleton rest op ih =>
    rw [trackAll_concat, settled_track, ih, List.any_append, List.any_cons, List.any_nil,
      Bool.or_false]

/-- What is heard stops at the first settlement. -/
theorem heard_concat (op : Op) : heard k event (rest ++ [op]) =
    if rest.any (Op.settles k) then heard k event rest
    else heard k event rest ++ (if op.settles k then none else op.broadcastAt event).toList := by
  unfold heard
  by_cases hsettled : rest.any (Op.settles k) = true
  · rw [if_pos hsettled, List.takeWhile_append, if_neg]
    intro hlen
    have hall := List.takeWhile_eq_self_iff.mp
      ((List.takeWhile_prefix _).eq_of_length hlen)
    obtain ⟨op, hmem, hop⟩ := List.any_eq_true.mp hsettled
    simpa [hop] using hall op hmem
  · rw [if_neg hsettled]
    have hnone : ∀ op ∈ rest, (!op.settles k) = true := by simpa using hsettled
    rw [List.takeWhile_append_of_pos hnone, List.filterMap_append,
      List.takeWhile_eq_self_iff.mpr hnone]
    cases hop : op.settles k with
    | true => simp [hop]
    | false => cases hat : op.broadcastAt event <;> simp [hop, hat]

/-- An operation takes what a record says to what it says afterwards. -/
theorem Audited.track (h : Audited k rest rec) (hsettled : rec.settled = rest.any (Op.settles k))
    (op : Op) : Audited k (rest ++ [op]) (op.track k rec) := by
  cases op with
  | begin i event ticket now =>
    refine ⟨?_, ?_⟩
    · rw [List.filterMap_append]
      simpa [Op.outcome, Op.track] using h.outcome
    · rw [heard_concat]
      simpa [Op.settles, Op.broadcastAt, Op.track] using h.broadcast
  | settle i timedOut error stepping now =>
    by_cases hk : k = i
    · subst hk
      refine ⟨?_, ?_⟩
      · simp [Op.outcome, CallRecord.outcome, CallRecord.settle]
      · rw [heard_concat]
        simpa [Op.settles, CallRecord.settle] using h.broadcast
    · refine ⟨?_, ?_⟩
      · rw [List.filterMap_append]
        simpa [Op.outcome, hk] using h.outcome
      · rw [heard_concat]
        simpa [Op.settles, Op.broadcastAt, hk] using h.broadcast
  | noteBroadcast e now =>
    refine ⟨?_, ?_⟩
    · rw [List.filterMap_append]
      simpa [Op.outcome, Op.track] using h.outcome
    · -- a settled record keeps the time it had
      rw [heard_concat, ← hsettled]
      simp only [Op.track, event_note, Op.settles, Op.broadcastAt]
      by_cases hs : rec.settled = true
      · simpa [CallRecord.note, hs] using h.broadcast
      · by_cases he : rec.event = e
        · simp [CallRecord.note, hs, he]
        · simpa [CallRecord.note, hs, he] using h.broadcast

/-- What was reported after a call was begun is what its record says. -/
theorem audited_trackAll (rest : List Op) :
    Audited k rest (trackAll k rest (.pending event ticket now)) := by
  induction rest using List.reverseRecOn with
  | nil => exact ⟨rfl, rfl⟩
  | append_singleton rest op ih =>
    rw [trackAll_concat]
    exact ih.track (settled_trackAll rest) op

/-- The event, the ticket and the time of issue of a record do not change. -/
theorem fixed_trackAll (rest : List Op) (rec : CallRecord) :
    (trackAll k rest rec).event = rec.event ∧ (trackAll k rest rec).ticket = rec.ticket ∧
      (trackAll k rest rec).issuedAt = rec.issuedAt := by
  induction rest using List.reverseRecOn with
  | nil => exact ⟨rfl, rfl, rfl⟩
  | append_singleton rest op ih =>
    rw [trackAll_concat]
    cases op with
    | begin i event ticket now => exact ih
    | settle i timedOut error stepping now =>
      rw [track_settle]
      split <;> exact ih
    | noteBroadcast e now => simpa using ih

/-- The ring after any operations: the newest of all calls that were begun, and each record says
how its call ended and when a broadcast of its event last came while it was in flight, also
when many calls have passed through the ring meanwhile. -/
theorem ring_audited (h : d.records = []) (ops : List Op) :
    (d.run ops).records = (trail ops).rtake d.capacity ∧
      ∀ entry ∈ (d.run ops).records, ∃ front event ticket now rest,
        ops = front ++ .begin entry.1 event ticket now :: rest ∧ entry.2.event = event ∧
          entry.2.ticket = ticket ∧ entry.2.issuedAt = now ∧ Audited entry.1 rest entry.2 := by
  refine ⟨records_run h ops, fun entry hmem => ?_⟩
  have htrail : (entry.1, entry.2) ∈ trail ops := by
    rw [records_run h] at hmem
    exact List.mem_of_mem_drop hmem
  obtain ⟨front, event, ticket, now, rest, hops, hrec⟩ := mem_trail_iff.mp htrail
  obtain ⟨hevent, hticket, hissued⟩ :=
    fixed_trackAll (k := entry.1) rest (.pending event ticket now)
  rw [hrec]
  exact ⟨front, event, ticket, now, rest, hops, hevent, hticket, hissued, audited_trackAll rest⟩

/-- Two calls in a ring of one: a broadcast between them is gone with the first. -/
def twoCalls : List Op :=
  [.begin 0 "gpu.stats.get" "t1" 3, .noteBroadcast "gpu.stats.get" 5,
   .begin 1 "cpu.status" "t2" 8, .settle 0 false none none 9, .settle 1 false none none 9]

theorem ring_audited_twoCalls :
    ((⟨1, by decide, []⟩ : CallDiagnostics).run twoCalls).records.map Prod.fst = [1] ∧
      ((⟨1, by decide, []⟩ : CallDiagnostics).run twoCalls).records = (trail twoCalls).rtake 1 :=
  ⟨rfl, (ring_audited rfl twoCalls).1⟩

end Diagnostics
