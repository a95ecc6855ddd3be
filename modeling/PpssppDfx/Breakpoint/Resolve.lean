import Mathlib.Data.List.Nodup
import PpssppDfx.Breakpoint.MemCheck
import PpssppDfx.Breakpoint.Tool

/-!
# Which watchpoint a call changes

To remove or update a watchpoint, the tool looks up the first one at the address and takes its
size, whatever size the call names. The emulator may have watchpoints of different sizes at one
address. Then the call changes another one than it names, unless the one it names is listed first.

## Main definitions

* `Breakpoint.WatchTable` — the watchpoints of the emulator, told apart by address and size
* `Breakpoint.Emulator` — what it makes of an update
* `Call.watched` — the watchpoints after a call
* `Call.requested` — the watchpoints that the call asks for

## Main results

* `Call.watched_eq_iff` — when a call changes the watchpoint that it names and no other
-/

set_option autoImplicit false

namespace Breakpoint

/-! ## Watchpoints of the emulator -/

def MemCheck.key (m : MemCheck) : ℤ × ℤ := (m.address, m.size)

/-- The watchpoints, no two with the same address and size. -/
@[ext]
structure WatchTable where
  entries : MemTable
  keyed : (entries.map MemCheck.key).Nodup

/-- What an update says: attributes that may be left out, and the flags. -/
structure Amendment where
  enabled : Option Bool
  log : Option Bool
  logFormat : Option String
  read : Bool
  write : Bool
  change : Bool

/-- What the emulator makes of an update. The flags become those of the update, and the address
and the size stay; the rest is up to the emulator. -/
structure Emulator where
  amend : Amendment → MemCheck → MemCheck
  key_amend (u : Amendment) (m : MemCheck) : (amend u m).key = m.key
  read_amend (u : Amendment) (m : MemCheck) : (amend u m).read = u.read
  write_amend (u : Amendment) (m : MemCheck) : (amend u m).write = u.write
  change_amend (u : Amendment) (m : MemCheck) : (amend u m).change = u.change

/-- Attributes that are left out stay as they are. -/
def Emulator.keeping : Emulator where
  amend u m :=
    { m with
      read := u.read
      write := u.write
      change := u.change
      enabled := u.enabled.getD m.enabled
      log := u.log.getD m.log
      logFormat := u.logFormat.or m.logFormat }
  key_amend _ _ := rfl
  read_amend _ _ := rfl
  write_amend _ _ := rfl
  change_amend _ _ := rfl

namespace WatchTable

variable {t : WatchTable} {m m' : MemCheck} {address size : ℤ}

theorem keyed_iff_key_eq : MemTable.Keyed address size m ↔ m.key = (address, size) := by
  rw [MemCheck.key, Prod.mk.injEq]
  exact Iff.rfl

theorem eq_of_keyed (hm : m ∈ t.entries) (hm' : m' ∈ t.entries)
    (hkeyed : MemTable.Keyed address size m) (hkeyed' : MemTable.Keyed address size m') : m = m' := by
  rw [keyed_iff_key_eq] at hkeyed hkeyed'
  exact List.inj_on_of_nodup_map t.keyed hm hm' (hkeyed.trans hkeyed'.symm)

/-- Each watchpoint of an address and a size is changed. -/
def modify (t : WatchTable) (address size : ℤ) (f : MemCheck → MemCheck)
    (hf : ∀ m, MemTable.Keyed address size m → (f m).key = m.key) : WatchTable where
  entries := t.entries.map fun m => if MemTable.Keyed address size m then f m else m
  keyed := by
    have hkeys : (t.entries.map fun m => if MemTable.Keyed address size m then f m else m).map
        MemCheck.key = t.entries.map MemCheck.key := by
      rw [List.map_map]
      refine List.map_congr_left fun m _ => ?_
      rw [Function.comp_apply]
      split_ifs with hkeyed
      · exact hf m hkeyed
      · rfl
    rw [hkeys]
    exact t.keyed

/-- `memory.breakpoint.remove`. -/
def remove (t : WatchTable) (address size : ℤ) : WatchTable where
  entries := t.entries.remove address size
  keyed := t.keyed.sublist (List.filter_sublist.map MemCheck.key)

/-- `memory.breakpoint.add`. -/
def add (t : WatchTable) (m : MemCheck) : WatchTable where
  entries := t.entries.add m
  keyed := by
    unfold MemTable.add
    split_ifs with hany
    · exact (t.modify m.address m.size (fun _ => m) fun _ hold =>
        (keyed_iff_key_eq.mp hold).symm).keyed
    · rw [List.map_append, List.nodup_append]
      refine ⟨t.keyed, List.nodup_singleton _, fun key hkey key' hkey' heq => hany ?_⟩
      obtain ⟨old, hold, rfl⟩ := List.mem_map.mp hkey
      rw [List.map_singleton, List.mem_singleton] at hkey'
      exact List.any_eq_true.mpr ⟨old, hold, decide_eq_true
        (keyed_iff_key_eq.mpr (heq.trans hkey'))⟩

/-- `memory.breakpoint.list`. -/
def listing (t : WatchTable) : List Listed :=
  t.entries.map fun m =>
    ⟨m.address, some m.size, some m.enabled, some m.read, some m.write, some m.change⟩

end WatchTable

/-- The watchpoints after a command. -/
def Emulator.perform (emu : Emulator) (t : WatchTable) : Command → WatchTable
  | .cpuAdd .. | .cpuRemove .. | .cpuUpdate .. => t
  -- the client adds watchpoints with `change` off
  | .memAdd address size read write enabled log logFormat =>
    t.add ⟨address, size, read, write, false, enabled, log, none, logFormat⟩
  | .memRemove address size => t.remove address size
  | .memUpdate address size enabled log logFormat read write change =>
    t.modify address size (emu.amend ⟨enabled, log, logFormat, read, write, change⟩)
      fun m _ => emu.key_amend _ m

/-! ## Calls -/

namespace Call

variable (emu : Emulator) (sessionId : String) (f : Filters) (q : Call)
  (after : Option (List Listed)) (t : WatchTable)

/-- The watchpoints after a call of the tool, to which the emulator answers: the first listing is
that of its watchpoints, and the command succeeds. -/
def watched : WatchTable :=
  match (breakpoint sessionId f q ⟨some t.listing, true, after⟩).command with
  | some (command, true) => emu.perform t command
  | _ => t

/-- The tool refuses the arguments. -/
def Refused : Prop := q.address = 0 ∨ q.size < 1

instance : Decidable q.Refused := inferInstanceAs (Decidable (_ ∨ _))

/-- What an update says when it is to change this watchpoint: the flags that are not in the call
stay. -/
def amendment (m : MemCheck) : Amendment :=
  ⟨q.enabled, q.log, q.logFormat, q.read.getD m.read, q.write.getD m.write, m.change⟩

def amended (m : MemCheck) : MemCheck := emu.amend (q.amendment m) m

/-- The watchpoints that the call asks for: the one that it names is removed or updated, and the
others stay. -/
def requested : WatchTable :=
  if q.Refused then t else
    match q.action with
    | .memRemove => t.remove q.address q.size
    | .memUpdate => t.modify q.address q.size (q.amended emu) fun m _ => emu.key_amend _ m
    | _ => t

/-- The watchpoint that the call names is the first one listed at the address. -/
def NamesFirst : Prop := ∃ m, t.entries.findAt q.address = some m ∧ m.size = q.size

/-- The call is an update that changes neither the watchpoint that it names nor the first one at the
address. -/
def ChangesNothing : Prop :=
  q.action = .memUpdate ∧ ∀ m ∈ t.entries,
    MemTable.Keyed q.address q.size m ∨ t.entries.findAt q.address = some m → q.amended emu m = m

variable {q t emu}

theorem findMemBp_listing (address : ℤ) :
    findMemBp t.listing address = (t.entries.findAt address).map fun m =>
      ⟨m.address, some m.size, some m.enabled, some m.read, some m.write, some m.change⟩ := by
  rw [findMemBp, WatchTable.listing, List.find?_map]
  rfl

theorem watched_of_refused (hrefused : q.Refused)
    (haction : q.action = .memRemove ∨ q.action = .memUpdate) :
    q.watched emu sessionId f after t = t := by
  have haddress : q.action.requiresAddress = true := by rcases haction with h | h <;> rw [h] <;> rfl
  have hsize : q.action.requiresSize = true := by rcases haction with h | h <;> rw [h] <;> rfl
  rw [watched, breakpoint, haddress, hsize, Bool.true_and, Bool.true_and]
  by_cases hzero : q.address = 0
  · rw [if_pos (decide_eq_true hzero)]
  · rw [if_neg (by simpa using hzero), if_pos (decide_eq_true (hrefused.resolve_left hzero))]

theorem guards_of_taken (htaken : ¬ q.Refused) :
    ¬ (q.action.requiresAddress && decide (q.address = 0)) = true ∧
      ¬ (q.action.requiresSize && decide (q.size < 1)) = true := by
  obtain ⟨hzero, hsize⟩ := not_or.mp htaken
  constructor
  · simp [hzero]
  · simp [hsize]

theorem watched_memRemove {m : MemCheck} (htaken : ¬ q.Refused) (haction : q.action = .memRemove)
    (hfirst : t.entries.findAt q.address = some m) :
    q.watched emu sessionId f after t = t.remove q.address m.size := by
  obtain ⟨hzero, hsize⟩ := guards_of_taken htaken
  rw [watched, breakpoint, if_neg hzero, if_neg hsize, haction]
  simp only [memRemove, withMemBp, findMemBp_listing, hfirst, Option.map_some, send]
  rfl

theorem watched_memUpdate {m : MemCheck} (htaken : ¬ q.Refused) (haction : q.action = .memUpdate)
    (hfirst : t.entries.findAt q.address = some m) :
    q.watched emu sessionId f after t =
      t.modify q.address m.size (emu.amend (q.amendment m)) fun old _ => emu.key_amend _ old := by
  obtain ⟨hzero, hsize⟩ := guards_of_taken htaken
  rw [watched, breakpoint, if_neg hzero, if_neg hsize, haction]
  simp only [memUpdate, withMemBp, findMemBp_listing, hfirst, Option.map_some, send]
  rfl

/-- The first watchpoint at the address of one that is there. -/
theorem exists_first {address size : ℤ} {m : MemCheck} (hm : m ∈ t.entries)
    (hkeyed : MemTable.Keyed address size m) :
    ∃ first ∈ t.entries, first.address = address ∧ t.entries.findAt address = some first := by
  cases hfirst : t.entries.findAt address with
  | none => exact absurd hkeyed.1 (MemTable.findAt_eq_none.mp hfirst m hm)
  | some first =>
    rw [MemTable.findAt] at hfirst
    have haddress := List.find?_some hfirst
    exact ⟨first, List.mem_of_find?_eq_some hfirst, of_decide_eq_true haddress, rfl⟩

/-- To remove a watchpoint under another size is to leave it. -/
theorem remove_eq_remove_iff {address size size' : ℤ} {m : MemCheck} (hm : m ∈ t.entries)
    (hkeyed : MemTable.Keyed address size m) :
    t.remove address size' = t.remove address size ↔ size' = size := by
  constructor
  · intro heq
    -- the watchpoint is gone, and only its own key removes it
    have hgone : m ∉ (t.remove address size).entries := by
      simp [WatchTable.remove, MemTable.remove, hkeyed]
    rw [← heq] at hgone
    have hkeyed' : MemTable.Keyed address size' m := by
      by_contra hother
      exact hgone (List.mem_filter.mpr ⟨hm, decide_eq_true hother⟩)
    exact hkeyed'.2.symm.trans hkeyed.2
  · rintro rfl
    rfl

/-- An update that goes to another watchpoint at the address does what was asked for if there is
nothing to do at both. -/
theorem modify_eq_modify_iff {first m : MemCheck} (hfirst : first ∈ t.entries)
    (haddress : first.address = q.address) (hm : m ∈ t.entries)
    (hkeyed : MemTable.Keyed q.address q.size m) :
    t.modify q.address first.size (emu.amend (q.amendment first))
        (fun old _ => emu.key_amend _ old) =
      t.modify q.address q.size (q.amended emu) (fun old _ => emu.key_amend _ old) ↔
    first.size = q.size ∨ q.amended emu first = first ∧ q.amended emu m = m := by
  have hkeyedFirst : MemTable.Keyed q.address first.size first := ⟨haddress, rfl⟩
  simp only [WatchTable.ext_iff, WatchTable.modify, List.map_inj_left]
  constructor
  · intro heq
    by_cases hsize : first.size = q.size
    · exact Or.inl hsize
    -- each of the two watchpoints is changed by one of the updates only
    · have hother : ¬ MemTable.Keyed q.address q.size first := fun h => hsize h.2
      have hother' : ¬ MemTable.Keyed q.address first.size m := fun h => hsize (h.2.symm.trans hkeyed.2)
      have hatFirst := heq first hfirst
      have hatNamed := heq m hm
      rw [if_pos hkeyedFirst, if_neg hother] at hatFirst
      rw [if_neg hother', if_pos hkeyed] at hatNamed
      exact Or.inr ⟨hatFirst, hatNamed.symm⟩
  · rintro (hsize | ⟨hfirstSame, hnamedSame⟩) old hold
    -- the first one is the named one, and both updates go to it alone
    · rw [← hsize]
      split_ifs with hold'
      · rw [WatchTable.eq_of_keyed hold hfirst hold' hkeyedFirst]
        rfl
      · rfl
    -- no watchpoint is changed by either update
    · have hleft : (if MemTable.Keyed q.address first.size old then
          emu.amend (q.amendment first) old else old) = old := by
        split_ifs with hold'
        · rw [WatchTable.eq_of_keyed hold hfirst hold' hkeyedFirst]
          exact hfirstSame
        · rfl
      have hright : (if MemTable.Keyed q.address q.size old then q.amended emu old else old) = old := by
        split_ifs with hold'
        · rw [WatchTable.eq_of_keyed hold hm hold' hkeyed]
          exact hnamedSame
        · rfl
      rw [hleft, hright]

/-- Where a watchpoint is named, a call removes or updates it and no other one if it is listed
first at its address, or if there is nothing to change. -/
theorem watched_eq_iff (emu : Emulator) (sessionId : String) (f : Filters) (q : Call)
    (after : Option (List Listed)) (t : WatchTable)
    (haction : q.action = .memRemove ∨ q.action = .memUpdate)
    (hnamed : ∃ m ∈ t.entries, MemTable.Keyed q.address q.size m) :
    q.watched emu sessionId f after t = q.requested emu t ↔
      q.Refused ∨ q.NamesFirst t ∨ q.ChangesNothing emu t := by
  by_cases hrefused : q.Refused
  · rw [watched_of_refused sessionId f after hrefused haction, requested, if_pos hrefused]
    exact iff_of_true rfl (Or.inl hrefused)
  · obtain ⟨m, hm, hkeyed⟩ := hnamed
    obtain ⟨first, hfirst, haddress, hfind⟩ := exists_first hm hkeyed
    have hnames : q.NamesFirst t ↔ first.size = q.size := by
      simp only [NamesFirst, hfind, Option.some.injEq, exists_eq_left']
    rw [or_iff_right hrefused, hnames, requested, if_neg hrefused]
    rcases haction with hremove | hupdate
    -- a removal is never idle, since the watchpoint that it names is there
    · have hidle : ¬ q.ChangesNothing emu t := fun h => by
        have hupdate := h.1
        rw [hremove] at hupdate
        cases hupdate
      rw [watched_memRemove sessionId f after hrefused hremove hfind, hremove, or_iff_left hidle]
      exact remove_eq_remove_iff hm hkeyed
    · have hidle : q.ChangesNothing emu t ↔ q.amended emu first = first ∧ q.amended emu m = m := by
        constructor
        · rintro ⟨-, hsame⟩
          exact ⟨hsame first hfirst (Or.inr hfind), hsame m hm (Or.inl hkeyed)⟩
        · rintro ⟨hfirstSame, hnamedSame⟩
          refine ⟨hupdate, fun old hold hwhich => ?_⟩
          rcases hwhich with hold' | hold'
          · rw [WatchTable.eq_of_keyed hold hm hold' hkeyed]
            exact hnamedSame
          · rw [hfind, Option.some.injEq] at hold'
            rw [← hold']
            exact hfirstSame
      rw [watched_memUpdate sessionId f after hrefused hupdate hfind, hupdate, hidle]
      exact modify_eq_modify_iff hfirst haddress hm hkeyed

/-! ## Two watchpoints at one address -/

/-- A watchpoint of four bytes, and one of sixteen bytes at the same address. -/
def nested : WatchTable where
  entries :=
    [⟨0x08A0D000, 4, true, true, false, true, false, none, none⟩,
      ⟨0x08A0D000, 16, false, true, false, true, false, none, none⟩]
  keyed := by decide

/-- The call to remove a watchpoint. -/
def removal (address size : ℤ) : Call :=
  ⟨.memRemove, address, size, none, none, none, none, none, none⟩

theorem watched_removal_four :
    (removal 0x08A0D000 4).watched .keeping "s" (fun _ => none) none nested =
        (removal 0x08A0D000 4).requested .keeping nested ↔
      (removal 0x08A0D000 4).Refused ∨ (removal 0x08A0D000 4).NamesFirst nested ∨
        (removal 0x08A0D000 4).ChangesNothing .keeping nested :=
  watched_eq_iff .keeping "s" _ _ none nested (Or.inl rfl)
    ⟨_, List.mem_cons_self, rfl, rfl⟩

/-- To remove the watchpoint of sixteen bytes removes the other one. -/
theorem not_watched_removal_sixteen :
    ¬ ∀ (emu : Emulator) (sessionId : String) (f : Filters) (q : Call)
      (after : Option (List Listed)) (t : WatchTable),
      (q.action = .memRemove ∨ q.action = .memUpdate) →
      (∃ m ∈ t.entries, MemTable.Keyed q.address q.size m) →
      q.watched emu sessionId f after t = q.requested emu t := by
  intro h
  have heq := h .keeping "s" (fun _ => none) (removal 0x08A0D000 16) none nested (Or.inl rfl)
    ⟨_, List.mem_cons_of_mem _ List.mem_cons_self, rfl, rfl⟩
  have hentries := congrArg WatchTable.entries heq
  revert hentries
  decide

end Call

end Breakpoint
