import PpssppDfx.Session.Late

/-!
# The ledger of a run

A ledger is a sequential order that leads to the table in the file, together with the calls
that it has to account for. Every section that writes the table prolongs the order or changes
a start in it, and so does a save that outlived its operation when it reaches the file.

## Main definitions

* `Session.Ledger` — an order, its table and its calls

## Main results

* `Ledger.commit`, `Ledger.pend`, `Ledger.land` — what a save does to the ledger
* `Ledger.runs` — a section keeps it
-/

set_option autoImplicit false

namespace Session

open Semantics Function

/-- The calls whose saves are still running. -/
def pendingCalls (pending : List Pending) : List OpCall :=
  pending.flatMap fun p => p.edit.calls p.mgr

/-- The order leads to the table, accounts for the calls, and leaves room for a save that is
still running. -/
structure Ledger (a : Table) (order : List Op) (sessions : Sessions) (pending : List Pending)
    (returned unfinished : List OpCall) : Prop where
  serial : store.Serial order a
  table : tableOf sessions = store.run order a
  once : StartsOnce order
  counts : ∀ c, returned.count c ≤ (order.map Op.call).count c
  bound : ∀ c, (order.map Op.call).count c + (pendingCalls pending).count c ≤
    returned.count c + unfinished.count c
  fits : ∀ p ∈ pending, p.edit.modify p.mgr sessions = some p.table ∧
    p.edit.Ready p.mgr (tableOf sessions) order
  alone : pending.length ≤ 1

/-- What a section of a start needs of the calls: a record that it saves belongs to a start
that was called, and one that it discards to a start that has not returned. -/
def Edit.Booked (returned unfinished : List OpCall) (edit : Edit) : Prop :=
  ∀ sid, edit.drops = some sid →
    if edit.discards then .start sid ∉ returned else .start sid ∈ returned ++ unfinished

/-- The order after a section of which the reads and writes succeed. -/
def Edit.ordered (m : Manager) (order : List Op) (edit : Edit) (io : Io) : List Op :=
  match edit.modify m m.sessions, io with
  | some _, .done _ => edit.commit m order
  | some _, .cutSaving _ true => edit.commit m order
  | _, _ => order

section Calls

variable {edit : Edit} {m : Manager} {order : List Op} {sid : SessionId}
  {sessions edited : Sessions} {r : Record}

@[simp] theorem pendingCalls_nil : pendingCalls [] = [] := rfl

@[simp] theorem pendingCalls_singleton {p : Pending} :
    pendingCalls [p] = p.edit.calls p.mgr := by
  simp [pendingCalls]

/-- A section that does not take a start out of the order leaves it there. -/
theorem count_start_commit (h : edit.drops ≠ some sid) :
    ((edit.commit m order).map Op.call).count (.start sid) =
      (order.map Op.call).count (.start sid) := by
  have hnone : (edit.calls m).count (.start sid) = 0 :=
    List.count_eq_zero.mpr start_notMem_calls
  rw [count_commit, hnone, Nat.add_zero]
  rintro own hown ⟨⟩
  exact h hown

theorem start_mem_commit (h : edit.drops ≠ some sid) :
    .start sid ∈ (edit.commit m order).map Op.call ↔ .start sid ∈ order.map Op.call := by
  rw [← List.count_pos_iff, ← List.count_pos_iff, count_start_commit h]

/-- A start whose record was saved is in the order. -/
theorem start_mem_commit_of_drops (h : edit.drops = some sid) (hdiscards : edit.discards = false) :
    .start sid ∈ (edit.commit m order).map Op.call := by
  rw [← List.count_pos_iff, count_commit_drops h, hdiscards]
  exact Nat.one_pos

/-- A start that was in the order is there unless its record was discarded. -/
theorem start_mem_commit_of_mem (hdiscards : edit.discards = false)
    (hmem : .start sid ∈ order.map Op.call) : .start sid ∈ (edit.commit m order).map Op.call := by
  by_cases hown : edit.drops = some sid
  · exact start_mem_commit_of_drops hown hdiscards
  · exact (start_mem_commit hown).mpr hmem

/-- A section makes a record only for its start. -/
theorem lookup_of_modify (hmodify : edit.modify m sessions = some edited)
    (hdrops : edit.drops ≠ some sid) (hr : edited.lookup sid = some r) :
    ∃ r, sessions.lookup sid = some r := by
  by_cases hown : sid ∈ edit.operatedOn
  · cases edit with
    | persist own record | markConnected own record | discard own =>
      obtain rfl : sid = own := List.mem_singleton.mp hown
      exact absurd rfl hdrops
    | bind own | fold own attempt | touch own live | updateWsConnected own connected =>
      obtain rfl : sid = own := List.mem_singleton.mp hown
      obtain ⟨r, hr, -⟩ := Option.map_eq_some_iff.mp hmodify
      exact ⟨r, hr⟩
    | stop own =>
      obtain rfl : sid = own := List.mem_singleton.mp hown
      cases hmodify
      rw [AList.lookup_erase] at hr
      cases hr
    | gc reclaimed =>
      cases hmodify
      have hreclaimed : sid ∈ reclaimed := hown
      rw [lookup_foldl_erase, if_pos hreclaimed] at hr
      cases hr
  · exact ⟨r, (lookup_modify hmodify hown).symm.trans hr⟩

/-- The start of a session that has a record stays in the order, or gets there. -/
theorem start_mem_commit_of_lookup (hmodify : edit.modify m sessions = some edited)
    (hbefore : ∀ r, sessions.lookup sid = some r → .start sid ∈ order.map Op.call)
    (hr : edited.lookup sid = some r) : .start sid ∈ (edit.commit m order).map Op.call := by
  by_cases hown : edit.drops = some sid
  · refine start_mem_commit_of_drops hown ?_
    cases edit with
    | discard own =>
      obtain rfl : own = sid := Option.some.inj hown
      simp only [Edit.modify] at hmodify
      split at hmodify <;> cases hmodify
      rw [AList.lookup_erase] at hr
      cases hr
    | _ => rfl
  · obtain ⟨r, hr⟩ := lookup_of_modify hmodify hown hr
    exact (start_mem_commit hown).mpr (hbefore r hr)

/-- The table after a section of which the reads and writes succeed. -/
theorem after_of_succeeds {io : Io} (hio : io.succeeds = true) : m.after (some (edit, io)) =
    match edit.modify m m.sessions, io with
    | some edited, .done _ => edited
    | some edited, .cutSaving _ true => edited
    | _, _ => m.sessions := by
  cases io with
  | cutEarly => cases edit.modify m m.sessions <;> rfl
  | saveRaises reads => cases hio
  | done reads =>
    obtain rfl : reads = true := hio
    cases hmodify : edit.modify m m.sessions <;>
      simp [Manager.after, Manager.updateSessions, Manager.load, hmodify, Manager.save]
  | cutSaving reads landed =>
    obtain rfl : reads = true := hio
    cases hmodify : edit.modify m m.sessions <;> cases landed <;>
      simp [Manager.after, Manager.updateSessions, Manager.load, hmodify, Manager.save]

/-- A section leaves the table and the order, or writes the one and prolongs the other. -/
theorem ordered_cases (m : Manager) (order : List Op) (edit : Edit) {io : Io}
    (hio : io.succeeds = true) :
    edit.ordered m order io = order ∧ m.after (some (edit, io)) = m.sessions ∨
      edit.ordered m order io = edit.commit m order ∧
        edit.modify m m.sessions = some (m.after (some (edit, io))) := by
  rw [after_of_succeeds hio]
  rcases hmodify : edit.modify m m.sessions with _ | edited
  · exact Or.inl ⟨by simp [Edit.ordered, hmodify], rfl⟩
  cases io with
  | cutEarly => exact Or.inl ⟨by simp [Edit.ordered, hmodify], rfl⟩
  | saveRaises reads => cases hio
  | done reads => exact Or.inr ⟨by simp [Edit.ordered, hmodify], rfl⟩
  | cutSaving reads landed =>
    cases landed with
    | false => exact Or.inl ⟨by simp [Edit.ordered, hmodify], rfl⟩
    | true => exact Or.inr ⟨by simp [Edit.ordered, hmodify], rfl⟩

theorem StartsOnce.commit (h : StartsOnce order) : StartsOnce (edit.commit m order) := by
  intro sid
  by_cases hown : edit.drops = some sid
  · rw [count_commit_drops hown]
    split
    · exact Nat.zero_le 1
    · exact Nat.le_refl 1
  · rw [count_start_commit hown]
    exact h sid

end Calls

namespace Ledger

variable {a : Table} {order : List Op} {sessions edited : Sessions} {pending : List Pending}
  {returned unfinished returned' unfinished' : List OpCall} {m : Manager} {edit : Edit}
  {sid : SessionId} {l : Late} {io : Io}

/-- A section has written the table, and its calls are accounted for. -/
theorem commit (h : Ledger a order sessions pending returned unfinished)
    (hmodify : edit.modify m sessions = some edited)
    (hready : edit.Ready m (tableOf sessions) order) (hbooked : edit.Booked returned unfinished)
    (hreturned : ∀ c, returned'.count c ≤ returned.count c + (edit.calls m).count c)
    (hbound : ∀ c, (order.map Op.call).count c + (edit.calls m).count c ≤
      returned'.count c + unfinished'.count c)
    (hmono : ∀ c, returned.count c + unfinished.count c ≤
      returned'.count c + unfinished'.count c) :
    Ledger a (edit.commit m order) edited [] returned' unfinished' := by
  -- the counts change for the calls of the section and for the start that it drops
  obtain ⟨hserial, htable⟩ := serial_commit h.serial h.once h.table hmodify hready
  refine ⟨hserial, htable, h.once.commit, fun c => ?_, fun c => ?_, by simp, Nat.zero_le 1⟩
  · by_cases hc : ∃ sid, edit.drops = some sid ∧ c = .start sid
    · obtain ⟨sid, hsid, rfl⟩ := hc
      have hnone : (edit.calls m).count (.start sid) = 0 :=
        List.count_eq_zero.mpr start_notMem_calls
      have hbefore := hreturned (.start sid)
      have hown := hbooked sid hsid
      rw [count_commit_drops hsid]
      by_cases hdiscards : edit.discards = true
      · rw [if_pos hdiscards, ← List.count_eq_zero] at hown
        omega
      · have honce := h.once sid
        have hcounts := h.counts (.start sid)
        rw [if_neg hdiscards]
        omega
    · rw [count_commit fun sid hsid heq => hc ⟨sid, hsid, heq⟩]
      exact Nat.le_trans (hreturned c) (Nat.add_le_add_right (h.counts c) _)
  · by_cases hc : ∃ sid, edit.drops = some sid ∧ c = .start sid
    · obtain ⟨sid, hsid, rfl⟩ := hc
      have hown := hbooked sid hsid
      rw [count_commit_drops hsid, pendingCalls_nil, List.count_nil, Nat.add_zero]
      split
      · exact Nat.zero_le _
      · rename_i hdiscards
        rw [if_neg hdiscards, ← List.count_pos_iff, List.count_append] at hown
        exact Nat.lt_of_lt_of_le hown (hmono _)
    · rw [count_commit fun sid hsid heq => hc ⟨sid, hsid, heq⟩, pendingCalls_nil,
        List.count_nil, Nat.add_zero]
      exact hbound c

/-- A save whose operation was cancelled goes on. -/
theorem pend (h : Ledger a order sessions [] returned unfinished)
    (hmodify : edit.modify m sessions = some edited)
    (hready : edit.Ready m (tableOf sessions) order) :
    Ledger a order sessions [⟨edit, m, edited⟩] returned (unfinished ++ edit.calls m) where
  serial := h.serial
  table := h.table
  once := h.once
  counts := h.counts
  bound c := by
    have hbound := h.bound c
    have hnew : pendingCalls [⟨edit, m, edited⟩] = edit.calls m := pendingCalls_singleton
    rw [pendingCalls_nil, List.count_nil] at hbound
    rw [hnew, List.count_append]
    omega
  fits p hp := by
    obtain rfl := List.mem_singleton.mp hp
    exact ⟨hmodify, hready⟩
  alone := Nat.le_refl 1

/-- The save reaches the file. -/
theorem land {p : Pending} (h : Ledger a order sessions [p] returned unfinished)
    (hbooked : p.edit.Booked returned unfinished) :
    Ledger a (p.edit.commit p.mgr order) p.table [] returned unfinished := by
  obtain ⟨hmodify, hready⟩ := h.fits p (List.mem_singleton_self p)
  refine h.commit hmodify hready hbooked (fun c => Nat.le_add_right _ _) (fun c => ?_)
    fun c => Nat.le_refl _
  have hbound := h.bound c
  rwa [pendingCalls_singleton] at hbound

/-- The save is overwritten. -/
theorem overtaken (h : Ledger a order sessions pending returned unfinished) :
    Ledger a order sessions [] returned unfinished where
  serial := h.serial
  table := h.table
  once := h.once
  counts := h.counts
  bound c := by
    rw [pendingCalls_nil, List.count_nil, Nat.add_zero]
    exact Nat.le_trans (Nat.le_add_right _ _) (h.bound c)
  fits p hp := nomatch hp
  alone := Nat.zero_le 1

/-- A start is called. -/
theorem callStart (h : Ledger a order sessions pending returned unfinished) (c : OpCall) :
    Ledger a order sessions pending returned (unfinished ++ [c]) where
  serial := h.serial
  table := h.table
  once := h.once
  counts := h.counts
  bound c := by
    rw [List.count_append, ← Nat.add_assoc]
    exact Nat.le_trans (h.bound c) (Nat.le_add_right _ _)
  fits := h.fits
  alone := h.alone

/-- A start returns whose record was saved. -/
theorem finish (h : Ledger a order sessions pending returned unfinished)
    (hsaved : .start sid ∈ order.map Op.call) (hfirst : .start sid ∉ returned)
    (hcalled : .start sid ∈ unfinished) : Ledger a order sessions pending
      (returned ++ [.start sid]) (unfinished.erase (.start sid)) where
  serial := h.serial
  table := h.table
  once := h.once
  counts c := by
    rw [List.count_append]
    by_cases hc : c = .start sid
    · subst hc
      rw [List.count_eq_zero.mpr hfirst, List.count_singleton_self]
      exact List.count_pos_iff.mpr hsaved
    · rw [List.count_singleton, if_neg (by simpa using Ne.symm hc)]
      exact h.counts c
  bound c := by
    have hbound := h.bound c
    rw [List.count_append]
    by_cases hc : c = .start sid
    · subst hc
      have hpos : 0 < unfinished.count (.start sid) := List.count_pos_iff.mpr hcalled
      rw [List.count_erase_self, List.count_singleton_self]
      omega
    · rw [List.count_erase_of_ne hc]
      omega
  fits := h.fits
  alone := h.alone

/-- An update of a session without a record returns. -/
theorem answer (h : Ledger a order sessions [] returned unfinished) {connected : Bool}
    (hnone : sessions.lookup sid = none) :
    Ledger a (order ++ [.updateWsConnected sid connected]) sessions []
      (returned ++ [.updateWsConnected sid connected]) unfinished := by
  obtain ⟨hserial, hrun⟩ := serial_concat (.updateWsConnected sid connected) h.serial h.table
    trivial
  refine ⟨hserial, ?_, fun other => ?_, fun c => ?_, fun c => ?_, by simp, Nat.zero_le 1⟩
  · rw [hrun]
    funext other
    by_cases hother : other = sid
    · subst hother
      have hnone : tableOf sessions other = none := hnone
      simp [Op.effect, hnone]
    · simp [Op.effect, hother]
  · simpa [List.count_append, Op.call] using h.once other
  · have hcounts := h.counts c
    simp only [List.map_append, List.map_cons, List.map_nil, List.count_append, Op.call]
    omega
  · have hbound := h.bound c
    simp only [List.map_append, List.map_cons, List.map_nil, List.count_append, Op.call,
      pendingCalls_nil, List.count_nil] at hbound ⊢
    omega

/-- A section runs while no other save is running. -/
theorem runs (h : Ledger a order l.server.mgr.sessions l.pending l.returned l.unfinished)
    (hio : io.succeeds = true) (hquiet : io = .cutEarly ∨ l.pending = [])
    (hready : edit.Ready l.server.mgr (tableOf l.server.mgr.sessions) order)
    (hbooked : edit.Booked l.returned l.unfinished) :
    Ledger a (edit.ordered l.server.mgr order io) (l.server.mgr.after (some (edit, io)))
      (l.runs l.server.mgr edit io).pending (l.runs l.server.mgr edit io).returned
      (l.runs l.server.mgr edit io).unfinished := by
  rw [after_of_succeeds hio]
  rcases hmodify : edit.modify l.server.mgr l.server.mgr.sessions with _ | edited
  · simpa only [Edit.ordered, Late.runs, hmodify] using h
  -- a section is done, or cancelled before it reads, or while it saves; a save that was
  -- cancelled has landed by then or is still pending
  cases io with
  | cutEarly => simpa only [Edit.ordered, Late.runs, hmodify] using h
  | saveRaises reads => cases hio
  | done reads =>
    have hpending : l.pending = [] := hquiet.resolve_left (by simp)
    simp only [Edit.ordered, Late.runs, hmodify, hpending]
    refine h.commit hmodify hready hbooked (fun c => ?_) (fun c => ?_) fun c => ?_
    · rw [List.count_append]
      rfl
    · have hbound := h.bound c
      rw [hpending, pendingCalls_nil, List.count_nil] at hbound
      rw [List.count_append]
      show _ ≤ _ + (edit.calls l.server.mgr).count c + _
      omega
    · rw [List.count_append]
      omega
  | cutSaving reads landed =>
    have hpending : l.pending = [] := hquiet.resolve_left (by simp)
    rw [hpending] at h
    cases landed with
    | false =>
      simp only [Edit.ordered, Late.runs, hmodify, hpending]
      exact h.pend hmodify hready
    | true =>
      simp only [Edit.ordered, Late.runs, hmodify, hpending]
      refine h.commit hmodify hready hbooked (fun c => Nat.le_add_right _ _) (fun c => ?_)
        fun c => ?_
      · have hbound := h.bound c
        rw [pendingCalls_nil, List.count_nil] at hbound
        rw [List.count_append]
        show _ ≤ _ + (_ + (edit.calls l.server.mgr).count c)
        omega
      · rw [List.count_append]
        omega

end Ledger

end Session
