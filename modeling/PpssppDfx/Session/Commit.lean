import PpssppDfx.Session.Serial
import PpssppDfx.Session.Store

/-!
# Sections in a sequential order

A section that has written the table extends a sequential order of operations. A touch, an
update, a stop or a collection is its last operation then. A start writes more than once: a
record that it replaces moves its start to the end of the order, and one that it only marks
with the number of its attempt leaves the start where it is.

## Main definitions

* `Session.Edit.commit` — the order after a section
* `Session.Edit.Ready` — what a section has to find for that

## Main results

* `serial_commit` — the extended order is sequential and leads to the written table
-/

set_option autoImplicit false

namespace Session

open Semantics Function

/-- The records of a table. -/
def tableOf (sessions : Sessions) : Table := fun sid => sessions.lookup sid

/-- The moment at which a section runs. -/
def Manager.moment (m : Manager) : Moment := ⟨m.now, m.procs⟩

/-- What a transport reports of its connection, if one is registered. -/
def Manager.reported (m : Manager) (sid : SessionId) (live : Bool) : Option Bool :=
  if (m.transports sid).isSome then some live else none

namespace Edit

/-- The operation of which the section is the only one that writes. -/
def op (m : Manager) : Edit → Option Op
  | .touch sid live => some (.touch sid m.now (m.reported sid live))
  | .updateWsConnected sid connected => some (.updateWsConnected sid connected)
  | .stop sid => some (.stop sid)
  | .gc reclaimed => some (.gc reclaimed m.moment)
  | _ => none

/-- The session for whose start the section writes. -/
def startOf : Edit → Option SessionId
  | .persist sid _ => some sid
  | .markConnected sid _ => some sid
  | .bind sid => some sid
  | .fold sid _ => some sid
  | .discard sid => some sid
  | _ => none

end Edit

/-- The order without the start of a session. -/
def dropStart (sid : SessionId) (order : List Op) : List Op :=
  order.filter fun op => op.call ≠ .start sid

/-- The start of a session gets the number of its attempt. -/
def Op.refold (sid : SessionId) (attempt : ℕ) : Op → Op
  | .start own r => if own = sid then .start own (r.recover attempt) else .start own r
  | op => op

/-- The order after a section has written the table. -/
def Edit.commit (m : Manager) (order : List Op) : Edit → List Op
  | .persist sid record => dropStart sid order ++ [.start sid record]
  | .markConnected sid record => dropStart sid order ++ [.start sid record]
  | .bind _ => order
  | .fold sid attempt => order.map (Op.refold sid attempt)
  | .discard sid => dropStart sid order
  | .touch sid live => order ++ [.touch sid m.now (m.reported sid live)]
  | .updateWsConnected sid connected => order ++ [.updateWsConnected sid connected]
  | .stop sid => order ++ [.stop sid]
  | .gc reclaimed => order ++ [.gc reclaimed m.moment]

/-- The record of a start, if the table has one, is the start's own: nobody has touched it. -/
def Untouched (table : Table) (order : List Op) (sid : SessionId) : Prop :=
  ∀ r, table sid = some r → r.execCount = 0 ∧ .start sid ∈ order.map Op.call

/-- What a section has to find. -/
def Edit.Ready (m : Manager) (table : Table) (order : List Op) : Edit → Prop
  | .persist sid record =>
    record.execCount = 0 ∧ Untouched table order sid ∧
      (table sid = none → .start sid ∉ order.map Op.call)
  | .markConnected sid record => record.execCount = 0 ∧ Untouched table order sid
  | .bind _ => True
  | .fold sid _ => ∀ r, table sid = some r → .start sid ∈ order.map Op.call
  | .discard sid => Untouched table order sid
  | .gc reclaimed => ∀ sid ∈ reclaimed, ∀ r, table sid = some r → m.moment.inactive r
  | _ => True

variable {m : Manager} {sessions edited : Sessions} {order : List Op} {a : Table}
  {sid : SessionId} {attempt : ℕ} {edit : Edit} {r : Record}

/-! ## Tables -/

@[simp] theorem table_insert :
    tableOf (sessions.insert sid r) = update (tableOf sessions) sid (some r) := by
  funext other
  by_cases hother : other = sid
  · subst hother
    simp [tableOf]
  · simp [tableOf, hother]

@[simp] theorem table_erase :
    tableOf (sessions.erase sid) = update (tableOf sessions) sid none := by
  funext other
  by_cases hother : other = sid
  · subst hother
    simp [tableOf]
  · simp [tableOf, hother]

/-- A start of a session whose record is gone. -/
theorem apply_start :
    store.apply (.start sid r) (update a sid none) = update a sid (some r) := by
  funext other
  by_cases hother : other = sid
  · subst hother
    simp [Op.effect]
  · simp [Op.effect, hother]

/-! ## Starts in an order -/

/-- An order starts a session at one place at most. -/
def StartsOnce (order : List Op) : Prop :=
  ∀ sid, (order.map Op.call).count (.start sid) ≤ 1

theorem StartsOnce.split (h : StartsOnce order) (hmem : .start sid ∈ order.map Op.call) :
    ∃ before r after, order = before ++ .start sid r :: after ∧
      (∀ op ∈ before, op.call ≠ .start sid) ∧ ∀ op ∈ after, op.call ≠ .start sid := by
  obtain ⟨op, hop, hcall⟩ := List.mem_map.mp hmem
  obtain ⟨before, after, rfl⟩ := List.append_of_mem hop
  obtain ⟨r, rfl⟩ : ∃ r, op = .start sid r := by
    cases op <;> simp_all [Op.call]
  have hcount := h sid
  rw [List.map_append, List.map_cons, List.count_append, List.count_cons] at hcount
  have hself : (Op.start sid r).call = .start sid := rfl
  simp only [hself, beq_self_eq_true, if_true] at hcount
  refine ⟨before, r, after, rfl, fun op hop heq => ?_, fun op hop heq => ?_⟩
  · have hpos : 0 < (before.map Op.call).count (.start sid) :=
      List.count_pos_iff.mpr (List.mem_map.mpr ⟨op, hop, heq⟩)
    omega
  · have hpos : 0 < (after.map Op.call).count (.start sid) :=
      List.count_pos_iff.mpr (List.mem_map.mpr ⟨op, hop, heq⟩)
    omega

theorem dropStart_of_forall (h : ∀ op ∈ order, op.call ≠ .start sid) :
    dropStart sid order = order :=
  List.filter_eq_self.mpr fun op hop => decide_eq_true (h op hop)

theorem dropStart_split {before after : List Op}
    (hbefore : ∀ op ∈ before, op.call ≠ .start sid)
    (hafter : ∀ op ∈ after, op.call ≠ .start sid) :
    dropStart sid (before ++ .start sid r :: after) = before ++ after := by
  have hself : (Op.start sid r).call = .start sid := rfl
  have hsplit : dropStart sid (before ++ .start sid r :: after) =
      dropStart sid before ++ dropStart sid after := by
    simp [dropStart, hself]
  rw [hsplit, dropStart_of_forall hbefore, dropStart_of_forall hafter]

theorem refold_of_ne {op : Op} (h : op.call ≠ .start sid) : op.refold sid attempt = op := by
  cases op with
  | start own r =>
    have hown : own ≠ sid := fun hown => h (congrArg OpCall.start hown)
    exact if_neg hown
  | touch own now live => rfl
  | updateWsConnected own connected => rfl
  | stop own => rfl
  | gc reclaimed moment => rfl

theorem call_refold (op : Op) : (op.refold sid attempt).call = op.call := by
  cases op with
  | start own r =>
    by_cases hown : own = sid
    · rw [show (Op.start own r).refold sid attempt = .start own (r.recover attempt) from
      if_pos hown]
      rfl
    · rw [show (Op.start own r).refold sid attempt = .start own r from if_neg hown]
  | touch own now live => rfl
  | updateWsConnected own connected => rfl
  | stop own => rfl
  | gc reclaimed moment => rfl

theorem map_refold_of_forall (h : ∀ op ∈ order, op.call ≠ .start sid) :
    order.map (Op.refold sid attempt) = order :=
  (List.map_congr_left fun op hop => refold_of_ne (h op hop)).trans (List.map_id _)

theorem map_refold_split {before after : List Op}
    (hbefore : ∀ op ∈ before, op.call ≠ .start sid)
    (hafter : ∀ op ∈ after, op.call ≠ .start sid) :
    (before ++ .start sid r :: after).map (Op.refold sid attempt) =
      before ++ .start sid (r.recover attempt) :: after := by
  have hself : (Op.start sid r).refold sid attempt = .start sid (r.recover attempt) := if_pos rfl
  rw [List.map_append, List.map_cons, map_refold_of_forall hbefore, map_refold_of_forall hafter,
    hself]

/-! ## Commits -/

/-- A start whose record nobody has touched can be taken out of the order. -/
theorem serial_dropStart_of_untouched (hserial : store.Serial order a) (honce : StartsOnce order)
    (hmem : .start sid ∈ order.map Op.call) (hr : store.run order a sid = some r)
    (hcount : r.execCount = 0) :
    store.Serial (dropStart sid order) a ∧
      store.run (dropStart sid order) a = update (store.run order a) sid none := by
  obtain ⟨before, r₀, after, rfl, hbefore, hafter⟩ := honce.split hmem
  have hrun : store.run after (store.apply (.start sid r₀) (store.run before a)) sid = some r := by
    rw [SerialSpec.run_append] at hr
    exact hr
  obtain ⟨r₁, -, hcounted⟩ := execCount_of_run hafter hrun
  have hnone : (after.map Op.call).countP (OpCall.touches sid) = 0 := by omega
  have htouch : ∀ op ∈ after, op.call.touches sid = false := fun op hop => by
    have hcall := List.countP_eq_zero.mp hnone op.call (List.mem_map.mpr ⟨op, hop, rfl⟩)
    simpa using hcall
  obtain ⟨hserial', hdiffer⟩ := serial_dropStart hserial hafter htouch
  rw [dropStart_split hbefore hafter]
  exact ⟨hserial', hdiffer⟩

/-- Taking out the start of a session without a record, or one that nobody has touched. -/
theorem serial_dropStart_of_ready (hserial : store.Serial order a) (honce : StartsOnce order)
    (huntouched : Untouched (store.run order a) order sid)
    (hnone : store.run order a sid = none → .start sid ∉ order.map Op.call) :
    store.Serial (dropStart sid order) a ∧
      store.run (dropStart sid order) a = update (store.run order a) sid none := by
  rcases hr : store.run order a sid with _ | r
  · have hnot : ∀ op ∈ order, op.call ≠ .start sid := fun op hop heq =>
      hnone hr (List.mem_map.mpr ⟨op, hop, heq⟩)
    rw [dropStart_of_forall hnot, ← hr, update_eq_self]
    exact ⟨hserial, rfl⟩
  · obtain ⟨hcount, hmem⟩ := huntouched r hr
    exact serial_dropStart_of_untouched hserial honce hmem hr hcount

/-- An operation that is legal in the table prolongs the order. -/
theorem serial_concat (op : Op) (hserial : store.Serial order a)
    (htable : tableOf sessions = store.run order a) (hlegal : op.Legal (tableOf sessions)) :
    store.Serial (order ++ [op]) a ∧
      store.run (order ++ [op]) a = fun sid => op.effect sid (tableOf sessions sid) := by
  refine ⟨hserial.concat ?_, ?_⟩
  · rw [← htable]
    exact hlegal
  · rw [SerialSpec.run_concat, ← htable]
    rfl

/-- A start is taken out of the order, for a record that is there and that nobody has touched. -/
theorem serial_dropStart_of_mem (hserial : store.Serial order a) (honce : StartsOnce order)
    (htable : tableOf sessions = store.run order a) (hmem : sid ∈ sessions)
    (huntouched : Untouched (tableOf sessions) order sid) :
    store.Serial (dropStart sid order) a ∧
      store.run (dropStart sid order) a = update (store.run order a) sid none := by
  rw [htable] at huntouched
  refine serial_dropStart_of_ready hserial honce huntouched fun hnone => ?_
  have hsome : (tableOf sessions sid).isSome = true := AList.lookup_isSome.mpr hmem
  rw [htable, hnone] at hsome
  cases hsome

/-- Where the start of a session was taken out, a start with another record is put at the end. -/
theorem serial_restart {record : Record} (hdropped : store.Serial (dropStart sid order) a)
    (htable : tableOf sessions = store.run order a)
    (hrun : store.run (dropStart sid order) a = update (store.run order a) sid none)
    (hcount : record.execCount = 0) :
    store.Serial (dropStart sid order ++ [.start sid record]) a ∧
      tableOf (sessions.insert sid record) =
        store.run (dropStart sid order ++ [.start sid record]) a := by
  refine ⟨hdropped.concat ⟨?_, hcount⟩, ?_⟩
  · rw [hrun, update_self]
  · rw [table_insert, htable, SerialSpec.run_concat, hrun, apply_start]

/-- An operation on one session changes the record of that session only. -/
theorem effects_eq_update {op : Op} {table : Table} {o : Option Record}
    (hself : op.effect sid (table sid) = o)
    (hothers : ∀ other, other ≠ sid → op.effect other (table other) = table other) :
    (fun other => op.effect other (table other)) = update table sid o := by
  funext other
  by_cases hother : other = sid
  · subst hother
    rw [update_self, hself]
  · rw [update_of_ne hother, hothers other hother]

/-- The order after a section is sequential, and leads to the table that the section has
written. -/
theorem serial_commit (hserial : store.Serial order a) (honce : StartsOnce order)
    (htable : tableOf sessions = store.run order a)
    (hmodify : edit.modify m sessions = some edited)
    (hready : edit.Ready m (tableOf sessions) order) :
    store.Serial (edit.commit m order) a ∧
      tableOf edited = store.run (edit.commit m order) a := by
  -- A save takes out the earlier start and puts its own at the end; a fold rewrites the start
  -- in place; the other sections are operations that prolong the order.
  cases edit with
  | persist own record =>
    obtain ⟨hcount, huntouched, hnone⟩ := hready
    rw [htable] at huntouched hnone
    obtain ⟨hdropped, hrun⟩ := serial_dropStart_of_ready hserial honce huntouched hnone
    simp only [Edit.modify] at hmodify
    split at hmodify <;> cases hmodify
    exact serial_restart hdropped htable hrun hcount
  | markConnected own record =>
    obtain ⟨hcount, huntouched⟩ := hready
    simp only [Edit.modify] at hmodify
    split at hmodify <;> cases hmodify
    rename_i hmem
    obtain ⟨hdropped, hrun⟩ := serial_dropStart_of_mem hserial honce htable hmem huntouched
    exact serial_restart hdropped htable hrun hcount
  | bind own =>
    obtain ⟨r, hr, rfl⟩ := Option.map_eq_some_iff.mp hmodify
    refine ⟨hserial, ?_⟩
    have hsame : some r = tableOf sessions own := hr.symm
    rw [table_insert, hsame, update_eq_self, htable]
    rfl
  | fold own attempt =>
    obtain ⟨r, hr, rfl⟩ := Option.map_eq_some_iff.mp hmodify
    -- there is one start of the session, and the operations behind it are kept
    obtain ⟨before, r₀, after, rfl, hbefore, hafter⟩ := honce.split (hready r hr)
    obtain ⟨hserial', hdiffer⟩ := serial_refold attempt hserial hafter
    rw [Edit.commit, map_refold_split hbefore hafter]
    refine ⟨hserial', ?_⟩
    have hfound : tableOf sessions own = some r := hr
    rw [hdiffer, table_insert, ← htable, hfound]
    rfl
  | discard own =>
    simp only [Edit.modify] at hmodify
    split at hmodify <;> cases hmodify
    rename_i hmem
    obtain ⟨hdropped, hrun⟩ := serial_dropStart_of_mem hserial honce htable hmem hready
    exact ⟨hdropped, by rw [table_erase, htable, Edit.commit, hrun]⟩
  | touch own live =>
    obtain ⟨r, hr, rfl⟩ := Option.map_eq_some_iff.mp hmodify
    have hfound : tableOf sessions own = some r := hr
    obtain ⟨hserial', hrun⟩ := serial_concat
      (.touch own m.now (m.reported own live)) hserial htable (by rw [Op.Legal, hfound]; rfl)
    refine ⟨hserial', ?_⟩
    rw [Edit.commit, hrun, table_insert]
    refine (effects_eq_update ?_ fun other hother => ?_).symm
    · simp only [Op.effect, if_true, hfound, Option.map_some, Manager.reported]
      split <;> rfl
    · simp [Op.effect, hother]
  | updateWsConnected own connected =>
    obtain ⟨r, hr, rfl⟩ := Option.map_eq_some_iff.mp hmodify
    have hfound : tableOf sessions own = some r := hr
    obtain ⟨hserial', hrun⟩ := serial_concat
      (.updateWsConnected own connected) hserial htable trivial
    refine ⟨hserial', ?_⟩
    rw [Edit.commit, hrun, table_insert]
    refine (effects_eq_update ?_ fun other hother => ?_).symm
    · simp [Op.effect, hfound]
    · simp [Op.effect, hother]
  | stop own =>
    cases hmodify
    obtain ⟨hserial', hrun⟩ := serial_concat (.stop own) hserial htable trivial
    refine ⟨hserial', ?_⟩
    rw [Edit.commit, hrun, table_erase]
    refine (effects_eq_update ?_ fun other hother => ?_).symm
    · simp [Op.effect]
    · simp [Op.effect, hother]
  | gc reclaimed =>
    cases hmodify
    obtain ⟨hserial', hrun⟩ := serial_concat (.gc reclaimed m.moment) hserial htable hready
    refine ⟨hserial', ?_⟩
    rw [Edit.commit, hrun]
    funext sid
    exact lookup_foldl_erase reclaimed sessions sid

/-! ## Calls in an order -/

theorem count_dropStart (c : OpCall) :
    ((dropStart sid order).map Op.call).count c =
      if c = .start sid then 0 else (order.map Op.call).count c := by
  have hfilter : (dropStart sid order).map Op.call =
      (order.map Op.call).filter fun c => c ≠ .start sid := by
    rw [List.filter_map]
    rfl
  rw [hfilter]
  split
  · rename_i hc
    subst hc
    exact List.count_eq_zero.mpr fun hmem => by simpa using (List.mem_filter.mp hmem).2
  · rename_i hc
    exact List.count_filter (by simpa using hc)

/-- The calls that a section completes. -/
def Edit.calls (m : Manager) (edit : Edit) : List OpCall := (edit.op m).toList.map Op.call

/-- The start that a section takes out of the order. -/
def Edit.drops : Edit → Option SessionId
  | .persist sid _ => some sid
  | .markConnected sid _ => some sid
  | .discard sid => some sid
  | _ => none

/-- The section does not put the start at the end of the order again. -/
def Edit.discards : Edit → Bool
  | .discard _ => true
  | _ => false

theorem startOf_of_drops (h : edit.drops = some sid) : edit.startOf = some sid := by
  cases edit <;> first | exact h | cases h

/-- No section completes the call of a start. -/
theorem start_notMem_calls : .start sid ∉ edit.calls m := by
  cases edit <;> simp [Edit.calls, Edit.op, Op.call]

theorem calls_of_startOf (h : edit.startOf = some sid) : edit.calls m = [] := by
  cases edit <;> first | rfl | cases h

/-- A section adds the calls that it completes to the order. -/
theorem count_commit {c : OpCall} (h : ∀ sid, edit.drops = some sid → c ≠ .start sid) :
    ((edit.commit m order).map Op.call).count c =
      (order.map Op.call).count c + (edit.calls m).count c := by
  cases edit with
  | persist own record | markConnected own record =>
    have hc : c ≠ .start own := h own rfl
    simp [Edit.commit, Edit.calls, Edit.op, List.count_append, count_dropStart, Op.call, hc,
      Ne.symm hc]
  | discard own =>
    have hc : c ≠ .start own := h own rfl
    simp [Edit.commit, Edit.calls, Edit.op, count_dropStart, hc]
  | bind own => simp [Edit.commit, Edit.calls, Edit.op]
  | fold own attempt =>
    have hcalls : (order.map (Op.refold own attempt)).map Op.call = order.map Op.call := by
      rw [List.map_map]
      exact List.map_congr_left fun op _ => call_refold op
    simp [Edit.commit, Edit.calls, Edit.op, hcalls]
  | touch | updateWsConnected | stop | gc =>
    simp [Edit.commit, Edit.calls, Edit.op, List.count_append]

/-- A start that a section takes out of the order is there once afterwards, or is not. -/
theorem count_commit_drops (h : edit.drops = some sid) :
    ((edit.commit m order).map Op.call).count (.start sid) = if edit.discards then 0 else 1 := by
  cases edit with
  | persist own record | markConnected own record =>
    obtain rfl : own = sid := Option.some.inj h
    simp [Edit.commit, Edit.discards, count_dropStart, Op.call]
  | discard own =>
    obtain rfl : own = sid := Option.some.inj h
    simp [Edit.commit, Edit.discards, count_dropStart]
  | bind | fold | touch | updateWsConnected | stop | gc => cases h

end Session
