import PpssppDfx.Session.Ledger
import PpssppDfx.Session.Orphan
import PpssppDfx.Session.Stage

/-!
# Whether updates are lost

The manager's lock keeps load-modify-save sections apart, except from a save that goes on
after its operation was cancelled. Besides, a start writes its own copy of the record again
once its emulator answers, and an idle collection removes what it judged some time ago.

## Main definitions

* `Session.Serializable` — the table is the result of the calls, one after the other, and
  every touch counts

## Main results

* `serializable_of_reaches` — runs without these three lose no update
* `touch_lost` — a run that loses the touch of another session
-/

set_option autoImplicit false

namespace Session

open Semantics Function

/-- The table is the result of some order of the calls that returned, and of some that did
not; and a session that no call removes counts the touches that returned, if no touch of it
was cancelled. -/
def Serializable (sessions : Sessions) (l : Late) : Prop :=
  ∃ order : List Op,
    (∀ c, l.returned.count c ≤ (order.map Op.call).count c ∧
      (order.map Op.call).count c ≤ l.returned.count c + l.unfinished.count c) ∧
    store.Serial order (tableOf sessions) ∧
    tableOf l.server.mgr.sessions = store.run order (tableOf sessions) ∧
    ∀ sid, (∀ c ∈ l.returned ++ l.unfinished, c.removes sid = false) →
      (∀ c ∈ l.unfinished, c.touches sid = false) →
      touchesOf (l.server.mgr.sessions.lookup sid) =
        touchesOf (sessions.lookup sid) + l.returned.countP (OpCall.touches sid)

variable {a table table' : Table} {order : List Op} {edited : Sessions}
  {calls calls' returned returned' unfinished unfinished' : List OpCall} {m : Manager}
  {edit : Edit} {io : Io} {sid : SessionId} {l : Late} {s t : State} {x y : Start}

/-! ## Starts -/

/-- What the calls and the table say of a start. -/
structure Start.Entered (x : Start) (calls returned unfinished : List OpCall) (table : Table) :
    Prop where
  record : x.record.execCount = 0
  early : x.phase.stage = .early → x.attempt = 0 → .start x.sid ∉ calls
  saved : x.phase.stage = .saved → .start x.sid ∈ calls
  ongoing : x.phase ≠ .returned → .start x.sid ∉ returned
  noted : .start x.sid ∈ returned ++ unfinished
  present : ∀ r, table x.sid = some r → .start x.sid ∈ calls

/-- A start runs the section of its session. -/
theorem startOf_of_edit {e : StartEvent} (hedit : x.edit m e = some (edit, io)) :
    edit.startOf = some x.sid ∧ e = .io io := by
  obtain ⟨hruns, rfl⟩ := runs_of_edit hedit
  cases hruns <;> exact ⟨rfl, rfl⟩

/-- A record is discarded at the end of a start that does not return. -/
theorem doomed_of_discards {e : StartEvent} (hedit : x.edit m e = some (edit, io))
    (hdiscards : edit.discards = true) : x.phase.stage = .doomed := by
  cases (runs_of_edit hedit).1 with
  | discard hphase =>
    rw [hphase]
    rfl
  | _ => cases hdiscards

/-- The first section of an attempt saves its record. -/
theorem drops_of_early {e : StartEvent} (hedit : x.edit m e = some (edit, io))
    (hearly : x.phase.stage = .early) : edit.drops = some x.sid ∧ edit.discards = false := by
  cases (runs_of_edit hedit).1 with
  | persist => exact ⟨rfl, rfl⟩
  | _ hphase =>
    rw [hphase] at hearly
    cases hearly

namespace Start.Entered

/-- The operation of someone else. -/
theorem of_other (h : x.Entered calls returned unfinished table)
    (hcalls : .start x.sid ∈ calls' ↔ .start x.sid ∈ calls)
    (hreturned : .start x.sid ∈ returned' → .start x.sid ∈ returned)
    (hnoted : .start x.sid ∈ returned ++ unfinished → .start x.sid ∈ returned' ++ unfinished')
    (htable : ∀ r, table' x.sid = some r → ∃ r, table x.sid = some r) :
    x.Entered calls' returned' unfinished' table' where
  record := h.record
  early hstage hattempt hmem := h.early hstage hattempt (hcalls.mp hmem)
  saved hstage := hcalls.mpr (h.saved hstage)
  ongoing hphase hmem := h.ongoing hphase (hreturned hmem)
  noted := hnoted h.noted
  present r hr := by
    obtain ⟨r, hr⟩ := htable r hr
    exact hcalls.mpr (h.present r hr)

/-- A section of the start finds what it needs. -/
theorem ready {i : TaskId} {e : StartEvent}
    (h : x.Entered (order.map Op.call) returned unfinished (tableOf s.mgr.sessions))
    (hi : s.tasks i = .start x) (hown : OwnRecords s (.start i e))
    (hedit : x.edit s.mgr e = some (edit, io)) :
    edit.Ready s.mgr (tableOf s.mgr.sessions) order := by
  have huntouched (hzero : ∀ r ∈ s.mgr.sessions.lookup x.sid, r.execCount = 0) :
      Untouched (tableOf s.mgr.sessions) order x.sid :=
    fun r hr => ⟨hzero r hr, h.present r hr⟩
  -- each section of a start, with what its phase guarantees of the record
  obtain ⟨hruns, rfl⟩ := runs_of_edit hedit
  cases hruns with
  | persist hphase =>
    simp only [OwnRecords, hi, hphase] at hown
    refine ⟨rfl, huntouched fun r hr => ?_, fun hnone => ?_⟩
    · rw [Option.mem_def] at hr
      simpa only [hr] using hown
    · have hnone : s.mgr.sessions.lookup x.sid = none := hnone
      rw [hnone] at hown
      exact h.early (by rw [hphase]; rfl) hown
  | markConnected hphase =>
    simp only [OwnRecords, hi, hphase] at hown
    exact ⟨h.record, huntouched hown⟩
  | bind => trivial
  | fold => exact h.present
  | discard hphase =>
    simp only [OwnRecords, hi, hphase] at hown
    exact huntouched hown

/-- The start of a record that was saved is in the order. -/
theorem saved_of_section {e : StartEvent}
    (h : x.Entered (order.map Op.call) returned unfinished table) (hstage : StageStep m x e y)
    (hedit : x.edit m e = some (edit, io)) (hio : io.succeeds = true)
    (hsaved : y.phase.stage = .saved) :
    .start x.sid ∈ (edit.ordered m order io).map Op.call := by
  -- either the start had been saved before, or this section saves it
  rcases hstage.saved hsaved with hsaved | ⟨_, reads, edited, hsome, hmodify, hearly⟩
  · rcases ordered_cases m order edit hio with
      ⟨hsame, -⟩ | ⟨hcommit, -⟩
    · rw [hsame]
      exact h.saved hsaved
    · rw [hcommit]
      refine start_mem_commit_of_mem ?_ (h.saved hsaved)
      rw [← Bool.not_eq_true]
      intro hdiscards
      rw [doomed_of_discards hedit hdiscards] at hsaved
      cases hsaved
  · obtain ⟨rfl, rfl⟩ := Prod.mk.inj (Option.some.inj (hedit.symm.trans hsome))
    obtain rfl : reads = true := hio
    obtain ⟨hdrops, hdiscards⟩ := drops_of_early hedit hearly
    have hmodify : edit.modify m m.sessions = some edited := hmodify
    simp only [Edit.ordered, hmodify]
    exact start_mem_commit_of_drops hdrops hdiscards

/-- A section of the start is accounted for. -/
theorem booked {e : StartEvent} (h : x.Entered calls returned unfinished table)
    (hactive : x.phase ≠ .returned) (hedit : x.edit m e = some (edit, io)) :
    edit.Booked returned unfinished := by
  intro sid hsid
  obtain rfl : x.sid = sid := by
    cases (runs_of_edit hedit).1 <;> first | exact Option.some.inj hsid | cases hsid
  split
  · exact h.ongoing hactive
  · exact h.noted

end Start.Entered

/-! ## What a section does to the calls -/

theorem mem_pending_runs {p : Pending} (hp : p ∈ (l.runs m edit io).pending) :
    p ∈ l.pending ∨ p.edit = edit ∧ (∃ reads landed, io = .cutSaving reads landed) ∧
      (edit.modify m m.sessions).isSome = true := by
  unfold Late.runs at hp
  split at hp
  · exact Or.inl hp
  · rename_i reads landed hmodify
    split at hp
    · exact Or.inl hp
    · rcases List.mem_append.mp hp with hp | hp
      · exact Or.inl hp
      · obtain rfl := List.mem_singleton.mp hp
        exact Or.inr ⟨rfl, ⟨reads, landed, rfl⟩, by rw [hmodify]; rfl⟩
  · exact Or.inl hp

theorem start_mem_returned_runs :
    .start sid ∈ (l.runs m edit io).returned ↔ .start sid ∈ l.returned := by
  have hnot : .start sid ∉ edit.calls m := start_notMem_calls
  rw [Edit.calls] at hnot
  unfold Late.runs
  split <;> simp only [List.mem_append, hnot, or_false]

theorem start_mem_unfinished_runs :
    .start sid ∈ (l.runs m edit io).unfinished ↔ .start sid ∈ l.unfinished := by
  have hnot : .start sid ∉ edit.calls m := start_notMem_calls
  rw [Edit.calls] at hnot
  unfold Late.runs
  split <;> simp only [List.mem_append, hnot, or_false]

/-! ## Books -/

/-- A ledger, and what it says of each start. -/
structure Books (a : Table) (order : List Op) (l : Late) : Prop where
  fresh : TasksFresh l.server
  ledger : Ledger a order l.server.mgr.sessions l.pending l.returned l.unfinished
  starts : ∀ j x, l.server.tasks j = .start x →
    x.Entered (order.map Op.call) l.returned l.unfinished (tableOf l.server.mgr.sessions)
  owners : ∀ sid, .start sid ∈ l.returned ++ l.unfinished →
    ∃ j x, l.server.tasks j = .start x ∧ x.sid = sid
  apart : ∀ j k x y, l.server.tasks j = .start x → l.server.tasks k = .start y →
    x.sid = y.sid → j = k
  held : ∀ p ∈ l.pending, ∀ sid, p.edit.startOf = some sid →
    ∃ j x, l.server.tasks j = .start x ∧ x.sid = sid ∧ x.phase.stage = .doomed

namespace Books

/-- A call that is in the order was called. -/
theorem mem_of_order (h : Books a order l) {c : OpCall} (hc : c ∈ order.map Op.call) :
    c ∈ l.returned ++ l.unfinished := by
  have hbound := h.ledger.bound c
  rw [← List.count_pos_iff] at hc ⊢
  rw [List.count_append]
  omega

/-- A step by which no start goes on, without a section. -/
theorem of_starts (h : Books a order l) (hfresh : TasksFresh t)
    (hstarts : ∀ j y, t.tasks j = .start y ↔ l.server.tasks j = .start y)
    (hsessions : t.mgr.sessions = l.server.mgr.sessions) :
    Books a order { l with server := t } where
  fresh := hfresh
  ledger := by
    rw [hsessions]
    exact h.ledger
  starts j x hj := by
    rw [hsessions]
    exact h.starts j x ((hstarts j x).mp hj)
  owners sid hsid := by
    obtain ⟨j, x, hj, hx⟩ := h.owners sid hsid
    exact ⟨j, x, (hstarts j x).mpr hj, hx⟩
  apart j k x y hj hk := h.apart j k x y ((hstarts j x).mp hj) ((hstarts k y).mp hk)
  held p hp sid hsid := by
    obtain ⟨j, x, hj, hx⟩ := h.held p hp sid hsid
    exact ⟨j, x, (hstarts j x).mpr hj, hx⟩

/-- A start finds its place in the books after a section of someone else. -/
theorem entered_of_section (h : x.Entered (order.map Op.call) l.returned l.unfinished
    (tableOf l.server.mgr.sessions)) (hio : io.succeeds = true)
    (hdrops : edit.drops ≠ some x.sid) :
    x.Entered ((edit.ordered l.server.mgr order io).map Op.call)
      (l.runs l.server.mgr edit io).returned (l.runs l.server.mgr edit io).unfinished
      (tableOf (l.server.mgr.after (some (edit, io)))) := by
  refine h.of_other ?_ start_mem_returned_runs.mp (fun hnoted => ?_) fun r hr => ?_
  · rcases ordered_cases l.server.mgr order edit hio with
      ⟨hsame, -⟩ | ⟨hcommit, -⟩
    · rw [hsame]
    · rw [hcommit]
      exact start_mem_commit hdrops
  · rw [List.mem_append] at hnoted ⊢
    exact hnoted.imp start_mem_returned_runs.mpr start_mem_unfinished_runs.mpr
  · rcases ordered_cases l.server.mgr order edit hio with
      ⟨-, hsame⟩ | ⟨-, hmodify⟩
    · rw [hsame] at hr
      exact ⟨r, hr⟩
    · exact lookup_of_modify hmodify hdrops hr

/-- A section that belongs to no start. -/
theorem of_section (h : Books a order l) (hfresh : TasksFresh t)
    (hstarts : ∀ j y, t.tasks j = .start y ↔ l.server.tasks j = .start y)
    (hsessions : t.mgr.sessions = l.server.mgr.after (some (edit, io)))
    (hio : io.succeeds = true) (hquiet : io = .cutEarly ∨ l.pending = [])
    (hready : edit.Ready l.server.mgr (tableOf l.server.mgr.sessions) order)
    (hstartOf : edit.startOf = none) :
    Books a (edit.ordered l.server.mgr order io)
      { l.runs l.server.mgr edit io with server := t } := by
  have hdrops (sid : SessionId) : edit.drops ≠ some sid := fun hdrops =>
    absurd ((startOf_of_drops hdrops).symm.trans hstartOf) (by simp)
  refine ⟨hfresh, ?_, fun j x hj => ?_, fun sid hsid => ?_, fun j k x y hj hk => ?_,
    fun p hp sid hsid => ?_⟩
  · rw [hsessions]
    exact h.ledger.runs hio hquiet hready fun sid hsid => absurd hsid (hdrops sid)
  · rw [hsessions]
    exact entered_of_section (h.starts j x ((hstarts j x).mp hj)) hio (hdrops x.sid)
  · obtain ⟨j, x, hj, hx⟩ := h.owners sid (by
      rw [List.mem_append] at hsid ⊢
      exact hsid.imp start_mem_returned_runs.mp start_mem_unfinished_runs.mp)
    exact ⟨j, x, (hstarts j x).mpr hj, hx⟩
  · exact h.apart j k x y ((hstarts j x).mp hj) ((hstarts k y).mp hk)
  · rcases mem_pending_runs hp with hp | ⟨rfl, -, -⟩
    · obtain ⟨j, x, hj, hx⟩ := h.held p hp sid hsid
      exact ⟨j, x, (hstarts j x).mpr hj, hx⟩
    · exact absurd (hsid.symm.trans hstartOf) (by simp)

/-- A start is called. -/
theorem callStart {resilient : Bool} {maxRestarts : ℕ} (h : Books a order l)
    (hid : l.server.freshId sid = true) :
    Books a order
      { l with
        unfinished := l.unfinished ++ [.start sid]
        server := { l.server with mgr := (startSession l.server.mgr sid resilient maxRestarts).1
          }.addTask (.start (startSession l.server.mgr sid resilient maxRestarts).2) } := by
  -- the id is fresh, so no earlier start and no record has it
  have hnew : .start sid ∉ l.returned ++ l.unfinished := fun hmem => by
    obtain ⟨j, x, hj, hx⟩ := h.owners sid hmem
    exact ne_of_freshId h.fresh hid hj hx
  have hkept (j : TaskId) (x : Start) (hj : l.server.tasks j = .start x) :
      j ≠ l.server.nextTask := by
    rintro rfl
    exact absurd (hj.symm.trans (h.fresh _ (Nat.le_refl _))) (by simp)
  have hnone : l.server.mgr.sessions.lookup sid = none := by
    simp only [State.freshId, Bool.and_eq_true, Option.isNone_iff_eq_none] at hid
    exact hid.1.1
  refine ⟨?_, h.ledger.callStart _, fun j x hj => ?_, fun own hown => ?_,
    fun j k x y hj hk hxy => ?_, fun p hp own hown => ?_⟩
  · exact TasksFresh.addTask (s := { l.server with mgr := _ }) h.fresh _
  · rcases startOf_addTask hj with ⟨-, rfl⟩ | hj
    · exact
        { record := rfl
          early := fun _ _ hmem => hnew (h.mem_of_order hmem)
          saved := fun hstage => by cases hstage
          ongoing := fun _ hmem => hnew (List.mem_append_left _ hmem)
          noted := by simp [startSession, launch]
          present := fun r hr => absurd (hr.symm.trans hnone) (by simp) }
    · refine (h.starts j x hj).of_other Iff.rfl id (fun hnoted => ?_) fun r hr => ⟨r, hr⟩
      rw [← List.append_assoc]
      exact List.mem_append_left _ hnoted
  · rw [← List.append_assoc, List.mem_append, List.mem_singleton] at hown
    rcases hown with hown | hown
    · obtain ⟨j, x, hj, hx⟩ := h.owners own hown
      exact ⟨j, x, by simpa only [State.addTask, update_of_ne (hkept j x hj)] using hj, hx⟩
    · obtain rfl := OpCall.start.inj hown
      exact ⟨l.server.nextTask, _, update_self _ _ _, rfl⟩
  · rcases startOf_addTask hj with ⟨hjnew, rfl⟩ | hj <;>
      rcases startOf_addTask hk with ⟨hknew, rfl⟩ | hk
    · exact hjnew.trans hknew.symm
    · exact absurd hxy.symm (ne_of_freshId h.fresh hid hk)
    · exact absurd hxy (ne_of_freshId h.fresh hid hj)
    · exact h.apart j k x y hj hk hxy
  · obtain ⟨j, x, hj, hx⟩ := h.held p hp own hown
    exact ⟨j, x, by simpa only [State.addTask, update_of_ne (hkept j x hj)] using hj, hx⟩

/-- A save that outlived its operation reaches the file. -/
theorem lands {p : Pending} (h : Books a order l) (hpending : l.pending = [p]) :
    Books a (p.edit.commit p.mgr order) { l.setSessions p.table with pending := [] } := by
  have hledger := h.ledger
  rw [hpending] at hledger
  obtain ⟨hmodify, -⟩ := hledger.fits p (List.mem_singleton_self p)
  have hheld := h.held p (by rw [hpending]; exact List.mem_singleton_self p)
  refine ⟨h.fresh, hledger.land fun sid hsid => ?_, fun j x hj => ?_, h.owners, h.apart,
    fun q hq => nomatch hq⟩
  · -- The start was cancelled, so that it does not return.
    obtain ⟨j, x, hj, rfl, hdoomed⟩ := hheld sid (startOf_of_drops hsid)
    split
    · refine (h.starts j x hj).ongoing fun hphase => ?_
      rw [hphase] at hdoomed
      cases hdoomed
    · exact (h.starts j x hj).noted
  · have hentered := h.starts j x hj
    -- the save belongs to a start that is doomed, and to the only one of its session
    by_cases hown : p.edit.drops = some x.sid
    · obtain ⟨k, y, hk, hy, hdoomed⟩ := hheld x.sid (startOf_of_drops hown)
      obtain rfl := h.apart k j y x hk hj hy
      obtain rfl := Task.start.inj (hk.symm.trans hj)
      exact
        { record := hentered.record
          early := fun hstage => by rw [hdoomed] at hstage; cases hstage
          saved := fun hstage => by rw [hdoomed] at hstage; cases hstage
          ongoing := hentered.ongoing
          noted := hentered.noted
          present := fun r hr => start_mem_commit_of_lookup hmodify hentered.present hr }
    · exact hentered.of_other (start_mem_commit hown) id id fun r hr =>
        lookup_of_modify hmodify hown hr

/-- Another section overwrites the save. -/
theorem overtaken (h : Books a order l) : Books a order { l with pending := [] } :=
  ⟨h.fresh, h.ledger.overtaken, h.starts, h.owners, h.apart, fun _ hp => nomatch hp⟩

/-- A start returns. -/
theorem finishes {j : TaskId} {e : StartEvent} (h : Books a order l)
    (hfirst : ∀ y, l.server.tasks j = .start y → .start y.sid ∉ l.returned) :
    Books a order (l.finishes l.server (.start j e)) := by
  unfold Late.finishes
  dsimp only
  split
  · rename_i y hj
    split
    · rename_i hphase
      have hentered := h.starts j y hj
      have hcalled : .start y.sid ∈ l.unfinished :=
        (List.mem_append.mp hentered.noted).resolve_left (hfirst y hj)
      have hsaved : .start y.sid ∈ order.map Op.call := hentered.saved (by rw [hphase]; rfl)
      -- the call moves from one list to the other
      have hnoted (c : OpCall) : c ∈ (l.returned ++ [.start y.sid]) ++
          l.unfinished.erase (.start y.sid) ↔ c ∈ l.returned ++ l.unfinished := by
        by_cases hc : c = .start y.sid
        · subst hc
          simp [hcalled]
        · simp [hc]
      refine ⟨h.fresh, h.ledger.finish hsaved (hfirst y hj) hcalled, fun k x hk => ?_,
        fun sid hsid => h.owners sid ((hnoted _).mp hsid), h.apart, h.held⟩
      by_cases hxy : x.sid = y.sid
      · obtain rfl := h.apart k j x y hk hj hxy
        obtain rfl := Task.start.inj (hk.symm.trans hj)
        exact
          { record := hentered.record
            early := hentered.early
            saved := hentered.saved
            ongoing := fun hactive => absurd hphase hactive
            noted := (hnoted _).mpr hentered.noted
            present := hentered.present }
      · refine (h.starts k x hk).of_other Iff.rfl (fun hmem => ?_) (hnoted _).mpr
          fun r hr => ⟨r, hr⟩
        rcases List.mem_append.mp hmem with hmem | hmem
        · exact hmem
        · exact absurd (OpCall.start.inj (List.mem_singleton.mp hmem)) hxy
    · exact h
  · exact h

/-- A start goes on, and the other starts find their places. -/
theorem of_start (l' : Late) {order' : List Op} {j : TaskId} {e : StartEvent} {r : Manager × Start}
    (h : Books a order l) (hj : l.server.tasks j = .start x)
    (hr : startStep l.server.mgr x e = some r)
    (hledger : Ledger a order' r.1.sessions l'.pending l'.returned l'.unfinished)
    (hself : r.2.Entered (order'.map Op.call) l'.returned l'.unfinished (tableOf r.1.sessions))
    (hothers : ∀ k y, l.server.tasks k = .start y → y.sid ≠ x.sid →
      y.Entered (order'.map Op.call) l'.returned l'.unfinished (tableOf r.1.sessions))
    (hcalls : ∀ sid, .start sid ∈ l'.returned ++ l'.unfinished →
      .start sid ∈ l.returned ++ l.unfinished)
    (hheld : ∀ p ∈ l'.pending, p ∈ l.pending ∨
      p.edit.startOf = some x.sid ∧ r.2.phase.stage = .doomed) :
    Books a order' { l' with server := l.server.setTask r.1 j (.start r.2) } := by
  have hsid : r.2.sid = x.sid := sid_startStep hr
  -- the owners of the calls and of the saves are the same starts as before
  have hkept (k : TaskId) (y : Start) (hk : l.server.tasks k = .start y) :
      ∃ k' z, (l.server.setTask r.1 j (.start r.2)).tasks k' = .start z ∧ z.sid = y.sid ∧
        (y.phase.stage = .doomed → z.phase.stage = .doomed) := by
    by_cases hkj : k = j
    · subst hkj
      obtain rfl := Task.start.inj (hj.symm.trans hk)
      exact ⟨k, r.2, update_self _ _ _, hsid, (stageStep_startStep hr).doomed⟩
    · exact ⟨k, y, by simpa only [State.setTask, update_of_ne hkj] using hk, rfl, id⟩
  refine ⟨h.fresh.setTask (by simp [hj]) _ _, hledger, fun k y hk => ?_, fun sid hmem => ?_,
    fun k k' y z hk hk' hyz => ?_, fun p hp sid hstartOf => ?_⟩
  · rcases startOf_setTask hk with ⟨-, rfl⟩ | ⟨hkj, hk⟩
    · exact hself
    · exact hothers k y hk fun hyx => hkj (h.apart k j y x hk hj hyx)
  · obtain ⟨k, y, hk, rfl⟩ := h.owners sid (hcalls sid hmem)
    obtain ⟨k', z, hk', hz, -⟩ := hkept k y hk
    exact ⟨k', z, hk', hz⟩
  · rcases startOf_setTask hk with ⟨hkj, rfl⟩ | ⟨-, hk⟩ <;>
      rcases startOf_setTask hk' with ⟨hkj', rfl⟩ | ⟨-, hk'⟩
    · exact hkj.trans hkj'.symm
    · exact hkj.trans (h.apart j k' x z hj hk' (hsid.symm.trans hyz))
    · exact (h.apart k j y x hk hj (hyz.trans hsid)).trans hkj'.symm
    · exact h.apart k k' y z hk hk' hyz
  · rcases hheld p hp with hp | ⟨hown, hdoomed⟩
    · obtain ⟨k, y, hk, rfl, hdoomed⟩ := h.held p hp sid hstartOf
      obtain ⟨k', z, hk', hz, hstage⟩ := hkept k y hk
      exact ⟨k', z, hk', hz, hstage hdoomed⟩
    · obtain rfl := Option.some.inj (hown.symm.trans hstartOf)
      exact ⟨j, r.2, update_self _ _ _, hsid, hdoomed⟩

/-- A start goes on without a section. -/
theorem start_of_none {j : TaskId} {e : StartEvent} {r : Manager × Start}
    (h : Books a order l) (hj : l.server.tasks j = .start x)
    (hr : startStep l.server.mgr x e = some r) (hedit : x.edit l.server.mgr e = none) :
    Books a order { l with server := l.server.setTask r.1 j (.start r.2) } := by
  have hsessions : r.1.sessions = l.server.mgr.sessions := by
    have hafter := sessions_startStep hr
    rwa [hedit] at hafter
  have hsid : r.2.sid = x.sid := sid_startStep hr
  have hstage : StageStep l.server.mgr x e r.2 := stageStep_startStep hr
  have hentered := h.starts j x hj
  refine h.of_start l hj hr ?_ ?_ (fun k y hk _ => ?_) (fun _ => id) fun p hp => Or.inl hp
  · rw [hsessions]
    exact h.ledger
  · rw [hsessions]
    exact
      { record := hstage.record hentered.record
        early := fun hearly hattempt => by
          obtain ⟨hearly, hattempt, -⟩ := hstage.early hearly hattempt
          rw [hsid]
          exact hentered.early hearly hattempt
        saved := fun hsaved => by
          rw [hsid]
          rcases hstage.saved hsaved with hsaved | ⟨edit, reads, edited, hsome, -⟩
          · exact hentered.saved hsaved
          · exact absurd (hedit.symm.trans hsome) (by simp)
        ongoing := fun _ => by
          rw [hsid]
          exact hentered.ongoing hstage.active
        noted := by
          rw [hsid]
          exact hentered.noted
        present := by
          rw [hsid]
          exact hentered.present }
  · rw [hsessions]
    exact h.starts k y hk

/-- A start goes on with a section. -/
theorem start_of_some {j : TaskId} {e : StartEvent} {r : Manager × Start}
    (h : Books a order l) (hj : l.server.tasks j = .start x)
    (hr : startStep l.server.mgr x e = some r)
    (hedit : x.edit l.server.mgr e = some (edit, io)) (hio : io.succeeds = true)
    (hquiet : io = .cutEarly ∨ l.pending = []) (hown : OwnRecords l.server (.start j e)) :
    Books a (edit.ordered l.server.mgr order io)
      { l.runs l.server.mgr edit io with
        server := l.server.setTask r.1 j (.start r.2) } := by
  have hsessions : r.1.sessions = l.server.mgr.after (some (edit, io)) := by
    rw [← hedit]
    exact sessions_startStep hr
  have hsid : r.2.sid = x.sid := sid_startStep hr
  have hstage : StageStep l.server.mgr x e r.2 := stageStep_startStep hr
  have hentered := h.starts j x hj
  have hcases := ordered_cases l.server.mgr order edit hio
  obtain ⟨hstartOf, rfl⟩ := startOf_of_edit hedit
  -- the section either commits, or leaves the order and the table alone
  refine h.of_start (l.runs l.server.mgr edit io) hj hr ?_ ?_ (fun k y hk hy => ?_)
    (fun sid hmem => ?_) fun p hp => ?_
  · rw [hsessions]
    exact h.ledger.runs hio hquiet (hentered.ready hj hown hedit)
      (hentered.booked hstage.active hedit)
  · rw [hsessions]
    exact
      { record := hstage.record hentered.record
        early := fun hearly hattempt => by
          obtain ⟨-, -, hnone⟩ := hstage.early hearly hattempt
          exact absurd (hnone.symm.trans hedit) (by simp)
        saved := fun hsaved => by
          rw [hsid]
          exact hentered.saved_of_section hstage hedit hio hsaved
        ongoing := fun _ => by
          rw [hsid, start_mem_returned_runs]
          exact hentered.ongoing hstage.active
        noted := by
          have hnoted := hentered.noted
          rw [hsid]
          rw [List.mem_append] at hnoted ⊢
          exact hnoted.imp start_mem_returned_runs.mpr start_mem_unfinished_runs.mpr
        present := by
          rw [hsid]
          intro r hr
          rcases hcases with ⟨hsame, htable⟩ | ⟨hcommit, hmodify⟩
          · rw [hsame]
            rw [htable] at hr
            exact hentered.present r hr
          · rw [hcommit]
            exact start_mem_commit_of_lookup hmodify hentered.present hr }
  · rw [hsessions]
    refine entered_of_section (h.starts k y hk) hio fun hdrops => hy ?_
    exact Option.some.inj ((startOf_of_drops hdrops).symm.trans hstartOf)
  · rw [List.mem_append] at hmem ⊢
    exact hmem.imp start_mem_returned_runs.mp start_mem_unfinished_runs.mp
  · rcases mem_pending_runs hp with hp | ⟨rfl, ⟨reads, landed, rfl⟩, hsome⟩
    · exact Or.inl hp
    · obtain rfl : reads = true := hio
      exact Or.inr ⟨hstartOf, hstage.cut p.edit true landed hedit hsome⟩

end Books

/-! ## Steps -/

/-- A section that runs in no start finds what it needs. -/
theorem ready_of_editOf {e : Event} (h : editOf s e = some (edit, io)) (hown : OwnRecords s e)
    (hstart : ∀ j e', e ≠ .start j e') :
    edit.startOf = none ∧ edit.Ready s.mgr (tableOf s.mgr.sessions) order := by
  obtain ⟨_, _, _, rfl, rfl⟩ | ⟨_, _, rfl, -, rfl⟩ | ⟨i, g, rfl, hi, hphase, rfl⟩ |
    ⟨j, _, e', rfl, -, -⟩ := editOf_cases h
  · exact ⟨rfl, trivial⟩
  · exact ⟨rfl, trivial⟩
  · simp only [OwnRecords, hi, hphase] at hown
    refine ⟨rfl, fun sid hsid r hr => (hown sid hsid r hr).imp (fun hexpired => ?_) id⟩
    unfold Manager.expired at hexpired
    split at hexpired
    · cases hexpired
    · exact ⟨_, ‹_›, of_decide_eq_true hexpired⟩
  · exact absurd rfl (hstart j e')

/-- A section runs while no other save is running, or is cancelled before it reads. -/
theorem quiet_of_undisturbed {e : Event} (h : editOf l.server e = some (edit, io))
    (hguard : Undisturbed l (.server e)) : io = .cutEarly ∨ l.pending = [] := by
  have hquiet := hguard.2
  rw [h] at hquiet
  cases io with
  | cutEarly => exact Or.inl rfl
  | done | saveRaises | cutSaving => exact Or.inr hquiet

theorem follow_of_ne_start {e : Event}
    (hcall : ∀ sid resilient maxRestarts, e ≠ .callStart sid resilient maxRestarts)
    (hstart : ∀ j e', e ≠ .start j e') :
    l.follow e t =
      match editOf l.server e with
      | some (edit, io) => { l.runs l.server.mgr edit io with server := t }
      | none => { l with server := t } := by
  have hsame : (l.starts e).finishes t e = l := by
    cases e with
    | callStart sid resilient maxRestarts => exact absurd rfl (hcall sid resilient maxRestarts)
    | start j e' => exact absurd rfl (hstart j e')
    | _ => rfl
  simp only [Late.follow, hsame]
  rcases editOf l.server e with _ | ⟨edit, io⟩ <;> rfl

/-- A start that goes on changes the books in one way, whatever is in them. -/
theorem finishes_start (t : State) (j : TaskId) (e : StartEvent) :
    ∃ f g : List OpCall → List OpCall, ∀ l : Late, l.finishes t (.start j e) =
      { l with returned := f l.returned, unfinished := g l.unfinished } := by
  rcases htask : t.tasks j with _ | _ | _ | _ | u
  case start =>
    by_cases hphase : u.phase = .returned
    · refine ⟨fun calls => calls ++ [.start u.sid], fun calls => calls.erase (.start u.sid),
        fun l => ?_⟩
      simp only [Late.finishes, htask, if_pos hphase]
    · exact ⟨id, id, fun l => by simp only [Late.finishes, htask, if_neg hphase, id]⟩
  all_goals exact ⟨id, id, fun l => by simp only [Late.finishes, htask, id]⟩

/-- It makes no difference whether a start returns before or after its section. -/
theorem follow_start {j : TaskId} {e : StartEvent} (hj : l.server.tasks j = .start x) :
    l.follow (.start j e) t =
      match x.edit l.server.mgr e with
      | some (edit, io) =>
        ({ l.runs l.server.mgr edit io with server := t } : Late).finishes t (.start j e)
      | none => ({ l with server := t } : Late).finishes t (.start j e) := by
  obtain ⟨f, g, hfinishes⟩ := finishes_start t j e
  simp only [Late.follow, Late.starts, hfinishes, editOf_start hj e]
  rcases hsection : x.edit l.server.mgr e with _ | ⟨edit, io⟩
  · rfl
  · obtain ⟨hstartOf, -⟩ := startOf_of_edit hsection
    have hcalls : (edit.op l.server.mgr).toList.map Op.call = [] := calls_of_startOf hstartOf
    simp only [Late.runs, hcalls, List.append_nil]
    split <;> rfl

/-- A step of the server keeps the books. -/
theorem books_server {e : Event} (h : Books a order l) (he : e.succeeds = true)
    (hguard : Undisturbed l (.server e)) (hstep : machine.step l.server e = some t) :
    ∃ order', Books a order' (l.follow e t) := by
  have hfresh := tasksFresh_step h.fresh hstep
  -- calls of a start, steps of a start, and the steps of everyone else
  by_cases hcall : ∃ sid resilient maxRestarts, e = .callStart sid resilient maxRestarts
  · obtain ⟨sid, resilient, maxRestarts, rfl⟩ := hcall
    cases takes_of_step hstep with
    | callStart hid => exact ⟨order, h.callStart hid⟩
  by_cases hstart : ∃ j e', e = .start j e'
  · obtain ⟨j, e, rfl⟩ := hstart
    cases takes_of_step hstep with
    | @start j e x r hj hr =>
      have hfirst : .start r.2.sid ∉ l.returned := by
        rw [sid_startStep hr]
        exact (h.starts j x hj).ongoing (stageStep_startStep hr).active
      have hself (y : Start)
          (hy : (l.server.setTask r.1 j (.start r.2)).tasks j = .start y) : y = r.2 := by
        have htask : (l.server.setTask r.1 j (.start r.2)).tasks j = .start r.2 :=
          update_self _ _ _
        exact Task.start.inj (hy.symm.trans htask)
      rw [follow_start hj]
      rcases hedit : x.edit l.server.mgr e with _ | ⟨edit, io⟩
      · refine ⟨order, (h.start_of_none hj hr hedit).finishes fun y hy => ?_⟩
        rw [hself y hy]
        exact hfirst
      · have heditOf := (editOf_start hj e).trans hedit
        refine ⟨_, (h.start_of_some hj hr hedit (succeeds_of_editOf heditOf he)
          (quiet_of_undisturbed heditOf hguard) hguard.1).finishes fun y hy => ?_⟩
        rw [hself y hy]
        exact fun hmem => hfirst (start_mem_returned_runs.mp hmem)
  · replace hcall (sid : SessionId) (resilient : Bool) (maxRestarts : ℕ) :
        e ≠ .callStart sid resilient maxRestarts :=
      fun heq => hcall ⟨sid, resilient, maxRestarts, heq⟩
    replace hstart (j : TaskId) (e' : StartEvent) : e ≠ .start j e' :=
      fun heq => hstart ⟨j, e', heq⟩
    have hby : Bystands l.server t := bystands_step h.fresh hstep hcall hstart
    have hsessions := sessions_step hstep
    rw [follow_of_ne_start hcall hstart]
    rcases hedit : editOf l.server e with _ | ⟨edit, io⟩
    · rw [hedit] at hsessions
      exact ⟨order, h.of_starts hfresh hby.starts hsessions⟩
    · rw [hedit] at hsessions
      obtain ⟨hstartOf, hready⟩ := ready_of_editOf hedit hguard.1 hstart
      exact ⟨_, h.of_section hfresh hby.starts hsessions (succeeds_of_editOf hedit he)
        (quiet_of_undisturbed hedit hguard) hready hstartOf⟩

/-- `update_ws_connected` keeps the books. -/
theorem books_updateWsConnected {connected : Bool} (h : Books a order l)
    (hio : io.succeeds = true) (hquiet : io = .cutEarly ∨ l.pending = []) :
    ∃ order', Books a order' (l.updateWsConnected sid connected io) := by
  have hafter : (l.server.mgr.updateWsConnected sid connected io).1.sessions =
      l.server.mgr.after (some (.updateWsConnected sid connected, io)) := rfl
  -- without a record the call answers at once, and is an operation that changes nothing
  by_cases hanswers : ∃ reads, io = .done reads ∧ l.server.mgr.sessions.lookup sid = none
  · obtain ⟨reads, rfl, hnone⟩ := hanswers
    obtain rfl : reads = true := hio
    have hpending : l.pending = [] := hquiet.resolve_left (by simp)
    have hmodify : (Edit.updateWsConnected sid connected).modify l.server.mgr
        l.server.mgr.sessions = none := by
      simp only [Edit.modify, hnone, Option.map_none]
    have hsame : l.server.mgr.after (some (.updateWsConnected sid connected, .done true)) =
        l.server.mgr.sessions := by
      rw [after_of_succeeds rfl, hmodify]
    have hledger := h.ledger
    rw [hpending] at hledger
    have hnoted (own : SessionId) : .start own ∈ (l.returned ++
        [OpCall.updateWsConnected sid connected]) ++ l.unfinished ↔
        .start own ∈ l.returned ++ l.unfinished := by
      simp
    simp only [Late.updateWsConnected, hmodify, hafter, hsame]
    refine ⟨_, h.fresh, by rw [hpending]; exact hledger.answer hnone, fun j x hj => ?_,
      fun own hown => h.owners own ((hnoted own).mp hown), h.apart, h.held⟩
    refine (h.starts j x hj).of_other ?_ (fun hmem => ?_) (hnoted x.sid).mpr
      fun r hr => ⟨r, hr⟩
    · simp [Op.call]
    · have hmem : .start x.sid ∈ l.returned ++ [OpCall.updateWsConnected sid connected] := hmem
      simpa using hmem
  · have hruns : l.updateWsConnected sid connected io =
        (l.runs l.server.mgr (.updateWsConnected sid connected) io).setSessions
          (l.server.mgr.after (some (.updateWsConnected sid connected, io))) := by
      rw [← hafter]
      unfold Late.updateWsConnected
      dsimp only
      split
      · rename_i reads hmodify
        refine absurd ⟨reads, rfl, ?_⟩ hanswers
        exact Option.map_eq_none_iff.mp hmodify
      · rfl
    have hserver : (l.runs l.server.mgr (.updateWsConnected sid connected) io).server =
        l.server := by
      unfold Late.runs
      split <;> rfl
    rw [hruns]
    simp only [Late.setSessions, hserver]
    exact ⟨_, h.of_section (t := { l.server with mgr := l.server.mgr.save _ }) h.fresh
      (fun j y => Iff.rfl) rfl hio hquiet trivial rfl⟩

theorem singleton_of_alone {pending : List Pending} {p : Pending} {k : ℕ}
    (halone : pending.length ≤ 1) (hk : pending[k]? = some p) : pending = [p] ∧ k = 0 := by
  match pending, k with
  | [], k => cases hk
  | [q], 0 => exact ⟨congrArg (fun q => [q]) (Option.some.inj hk), rfl⟩
  | [q], k + 1 => cases hk
  | _ :: _ :: _, k => exact absurd halone (by simp)

/-- Every undisturbed step keeps the books. -/
theorem books_step {e : LateEvent} {l' : Late} (h : Books a order l) (hguard : Undisturbed l e)
    (hstep : late.step l e = some l') : ∃ order', Books a order' l' := by
  replace hstep : lateStep l e = some l' := hstep
  cases e with
  | server e =>
    simp only [lateStep] at hstep
    split at hstep
    · rename_i he
      obtain ⟨t, ht, rfl⟩ := Option.map_eq_some_iff.mp hstep
      exact books_server h he hguard ht
    · cases hstep
  | updateWsConnected sid connected io =>
    simp only [lateStep] at hstep
    split at hstep <;> cases hstep
    rename_i hio
    refine books_updateWsConnected h hio ?_
    cases io with
    | cutEarly => exact Or.inl rfl
    | done | saveRaises | cutSaving => exact Or.inr hguard
  | lands k =>
    simp only [lateStep] at hstep
    split at hstep <;> cases hstep
    rename_i p hk
    obtain ⟨hpending, rfl⟩ := singleton_of_alone h.ledger.alone hk
    simp only [hpending, List.eraseIdx_cons_zero]
    exact ⟨_, h.lands hpending⟩
  | overtaken k =>
    simp only [lateStep] at hstep
    split at hstep <;> cases hstep
    rename_i p hk
    obtain ⟨hpending, rfl⟩ := singleton_of_alone h.ledger.alone hk
    simp only [hpending, List.eraseIdx_cons_zero]
    exact ⟨_, h.overtaken⟩

/-- The books of a server that has just started. -/
theorem books_init (sessions : Sessions) (procs : ℕ → Proc) (nextLauncher : ℕ) :
    Books (tableOf sessions) [] (Late.init sessions procs nextLauncher) where
  fresh _ _ := rfl
  ledger :=
    { serial := trivial
      table := rfl
      once := fun _ => Nat.zero_le 1
      counts := fun _ => Nat.le_refl 0
      bound := fun _ => Nat.le_refl 0
      fits := fun _ hp => nomatch hp
      alone := Nat.zero_le 1 }
  starts _ _ hj := nomatch hj
  owners _ hsid := nomatch hsid
  apart _ _ _ _ hj := nomatch hj
  held _ hp := nomatch hp

/-- Lists that hold some elements equally often hold equally many of them. -/
theorem countP_eq_of_count {as bs : List OpCall} {p : OpCall → Bool}
    (h : ∀ c, p c = true → as.count c = bs.count c) : as.countP p = bs.countP p := by
  have hperm : (as.filter p).Perm (bs.filter p) := by
    rw [List.perm_iff_count]
    intro c
    by_cases hc : p c = true
    · rw [List.count_filter hc, List.count_filter hc, h c hc]
    · have hnot (cs : List OpCall) : (cs.filter p).count c = 0 :=
        List.count_eq_zero.mpr fun hmem => hc (List.mem_filter.mp hmem).2
      rw [hnot, hnot]
  rw [List.countP_eq_length_filter, List.countP_eq_length_filter, hperm.length_eq]

/-- A run loses no update if no section reads the table while a cancelled save is running,
every start finds its record as it left it, and collections remove what is inactive. -/
theorem serializable_of_reaches {sessions : Sessions} {procs : ℕ → Proc} {nextLauncher : ℕ}
    (h : late.Reaches Undisturbed (Late.init sessions procs nextLauncher) l) :
    Serializable sessions l := by
  obtain ⟨order, hbooks⟩ : ∃ order, Books (tableOf sessions) order l :=
    h.invariant (P := fun l => ∃ order, Books (tableOf sessions) order l)
      ⟨[], books_init sessions procs nextLauncher⟩
      fun _ _ _ ⟨_, hbooks⟩ hguard hstep => books_step hbooks hguard hstep
  have hledger := hbooks.ledger
  have hbound (c : OpCall) : (order.map Op.call).count c ≤
      l.returned.count c + l.unfinished.count c :=
    Nat.le_trans (Nat.le_add_right _ _) (hledger.bound c)
  refine ⟨order, fun c => ⟨hledger.counts c, hbound c⟩, hledger.serial, hledger.table,
    fun sid hkept hnone => ?_⟩
  have hrun : l.server.mgr.sessions.lookup sid = store.run order (tableOf sessions) sid :=
    congrFun hledger.table sid
  -- no touch of the session is unfinished, so the order has exactly the touches that returned
  have htouches : (order.map Op.call).countP (OpCall.touches sid) =
      l.returned.countP (OpCall.touches sid) := by
    refine countP_eq_of_count fun c hc => Nat.le_antisymm ?_ (hledger.counts c)
    have hzero : l.unfinished.count c = 0 := by
      refine List.count_eq_zero.mpr fun hmem => ?_
      rw [hnone c hmem] at hc
      cases hc
    have hle := hbound c
    rwa [hzero, Nat.add_zero] at hle
  rw [hrun, execCount_eq hledger.serial fun op hop => ?_, htouches]
  · rfl
  · exact hkept op.call (hbooks.mem_of_order (List.mem_map_of_mem hop))

/-! ## Runs -/

instance (s : State) (e : Event) : Decidable (OwnRecords s e) := by
  unfold OwnRecords
  split
  · split
    · split
      · split <;> infer_instance
      all_goals infer_instance
    · infer_instance
  · split
    · split <;> infer_instance
    · infer_instance
  · infer_instance

instance (l : Late) (e : LateEvent) : Decidable (Undisturbed l e) := by
  have : Decidable (l.pending = []) := decidable_of_iff _ List.isEmpty_iff
  unfold Undisturbed
  split
  · refine @instDecidableAnd _ _ inferInstance ?_
    split <;> infer_instance
  all_goals infer_instance

/-- Two sessions from an earlier run. -/
def twoSessions : Sessions :=
  ((∅ : Sessions).insert 1 ⟨none, 5000, 0, 0, false, none⟩).insert 2 ⟨none, 5001, 0, 0, false, none⟩

/-- A tool call touches a session. -/
def touchRun (i : TaskId) (sid : SessionId) (io : Io) : List LateEvent :=
  [.server .callTool, .server (.tool i (.begins sid .stay)), .server (.tool i (.checks true)),
   .server (.tool i (.touches io true)), .server (.tool i .finishes)]

/-- Two tool calls on two sessions in turns. The touch of the first is cancelled while it saves,
and its save reaches the file before the other touches; then the first session is touched
again. -/
def interleavedRun : List LateEvent :=
  [.server .callTool, .server .callTool,
    .server (.tool 0 (.begins 1 .stay)), .server (.tool 1 (.begins 2 .stay)),
    .server (.tool 0 (.checks true)), .server (.tool 1 (.checks true)),
    .server (.tool 0 (.touches (.cutSaving true false) true)), .lands 0,
    .server (.tool 1 (.touches (.done true) true)),
    .server (.tool 0 .finishes), .server (.tool 1 .finishes)] ++ touchRun 2 1 (.done true)

/-- The touches that return count, and so does the one whose save was in time. -/
theorem serializable_interleaved :
    ∃ l, l.returned = [.touch 2 0 none, .touch 1 0 none] ∧ l.unfinished = [.touch 1 0 none] ∧
      touchesOf (l.server.mgr.sessions.lookup 1) = 2 ∧
      touchesOf (l.server.mgr.sessions.lookup 2) = 1 ∧ Serializable twoSessions l := by
  have hends : ((late.runWith Undisturbed (Late.init twoSessions (fun _ => .unborn) 0)
      interleavedRun).any fun l =>
        decide (l.returned = [.touch 2 0 none, .touch 1 0 none] ∧
          l.unfinished = [.touch 1 0 none] ∧
          touchesOf (l.server.mgr.sessions.lookup 1) = 2 ∧
          touchesOf (l.server.mgr.sessions.lookup 2) = 1)) = true := by
    decide +kernel
  obtain ⟨l, hl, htest⟩ := Machine.exists_reaches_of_runWith _ hends
  obtain ⟨hreturned, hunfinished, hfirst, hsecond⟩ := of_decide_eq_true htest
  exact ⟨l, hreturned, hunfinished, hfirst, hsecond, serializable_of_reaches hl⟩

/-- A touch is cancelled while it saves, another session is touched, and then the cancelled
save reaches the file. -/
def overwritingRun : List LateEvent :=
  touchRun 0 1 (.cutSaving true false) ++ touchRun 1 2 (.done true) ++ [.lands 0]

/-- The touch of the other session is lost. -/
theorem touch_lost :
    ¬ ∀ (sessions : Sessions) (procs : ℕ → Proc) (nextLauncher : ℕ) (l : Late),
      late.Reachable (Late.init sessions procs nextLauncher) l → Quiescent l →
        Serializable sessions l := by
  intro hall
  have hends : ((late.run (Late.init twoSessions (fun _ => .unborn) 0) overwritingRun).any fun l =>
      l.pending.isEmpty && decide (∀ i < l.server.nextTask, (l.server.tasks i).ended = true) &&
        decide (touchesOf (l.server.mgr.sessions.lookup 2) = 0 ∧
          l.returned = [.touch 2 0 none] ∧ l.unfinished = [.touch 1 0 none])) = true := by
    decide +kernel
  obtain ⟨l, hl, htest⟩ := Machine.exists_reachable_of_run _ hends
  simp only [Bool.and_eq_true, List.isEmpty_iff, decide_eq_true_eq] at htest
  obtain ⟨hquiescent, hlost, hreturned, hunfinished⟩ := htest
  obtain ⟨order, -, -, -, hcounts⟩ := hall twoSessions _ 0 l hl hquiescent
  have hcount := hcounts 2 (by simp [hreturned, hunfinished, OpCall.removes])
    (by simp [hunfinished, OpCall.touches])
  rw [hlost, hreturned] at hcount
  exact absurd hcount (by simp [OpCall.touches])

end Session
