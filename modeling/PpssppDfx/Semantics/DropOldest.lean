import Mathlib.Data.List.DropRight
import Mathlib.Data.List.Nodup

/-!
# Bounded queues that drop their oldest item

`push cap q x` appends `x`; when the queue is full its oldest item makes room. A queue that
is only pushed to holds the newest `cap` items. One that a reader takes from holds those of
the newest `cap` items that the reader did not take.

## Main results

* `foldl_pushDropOldest` — a queue after a list of pushes
* `Cursor.queue_eq` — a queue that a reader takes from
-/

set_option autoImplicit false

namespace Semantics

/-- Append to a queue of capacity `cap`, dropping the oldest item when it is full. -/
def pushDropOldest {α : Type*} (cap : ℕ) (q : List α) (x : α) : List α :=
  if q.length < cap then q ++ [x] else q.tail ++ [x]

section

variable {α : Type*} {cap : ℕ} {q : List α} {x y : α}

/-- Whatever is queued after a push was queued before or is the new item. -/
theorem mem_pushDropOldest (h : y ∈ pushDropOldest cap q x) : y ∈ q ∨ y = x := by
  unfold pushDropOldest at h
  split at h
  · simpa using h
  · rcases List.mem_append.mp h with hy | hy
    · exact Or.inl (List.mem_of_mem_tail hy)
    · exact Or.inr (by simpa using hy)

/-- Whatever is queued after a list of pushes was queued before or is one of the new items. -/
theorem mem_foldl_pushDropOldest {items : List α} :
    ∀ {q : List α}, y ∈ items.foldl (pushDropOldest cap) q → y ∈ q ∨ y ∈ items := by
  induction items with
  | nil => exact fun h => Or.inl h
  | cons x rest ih =>
    intro q h
    rcases ih h with hmem | hmem
    · rcases mem_pushDropOldest hmem with hmem | rfl
      · exact Or.inl hmem
      · exact Or.inr List.mem_cons_self
    · exact Or.inr (List.mem_cons_of_mem _ hmem)

/-- A push never overfills the queue. -/
theorem length_pushDropOldest_le (hcap : 0 < cap) (hq : q.length ≤ cap) :
    (pushDropOldest cap q x).length ≤ cap := by
  unfold pushDropOldest
  split <;> simp <;> omega

/-- A queue within its capacity holds its newest items. -/
theorem rtake_of_length_le (hq : q.length ≤ cap) : q.rtake cap = q := by
  rw [List.rtake, Nat.sub_eq_zero_of_le hq, List.drop_zero]

/-- A push leaves the newest items. -/
theorem pushDropOldest_eq_rtake (hcap : 0 < cap) (hq : q.length ≤ cap) :
    pushDropOldest cap q x = (q ++ [x]).rtake cap := by
  unfold pushDropOldest
  split
  · rw [rtake_of_length_le (by simp; omega)]
  · have hlen : (q ++ [x]).length - cap = 1 := by simp; omega
    rw [List.rtake, hlen, List.drop_one, List.tail_append_of_ne_nil]
    exact List.ne_nil_of_length_pos (by omega)

/-- What was pushed out before the newest items were selected makes no difference. -/
theorem rtake_rtake_append (l items : List α) :
    (l.rtake cap ++ items).rtake cap = (l ++ items).rtake cap := by
  simp only [List.rtake, List.length_append, List.length_drop, List.drop_append, List.drop_drop]
  congr 2 <;> omega

/-- What was not among the newest items before is dropped first. -/
theorem take_append_rtake (l items : List α) :
    (l ++ items).take ((l ++ items).length - cap) =
      l.take (l.length - cap) ++
        (l.rtake cap ++ items).take ((l.rtake cap ++ items).length - cap) := by
  by_cases hl : l.length ≤ cap
  · rw [rtake_of_length_le hl, Nat.sub_eq_zero_of_le hl, List.take_zero, List.nil_append]
  · have hlen : (l ++ items).length - cap = (l.take (l.length - cap)).length +
        ((l.rtake cap ++ items).length - cap) := by
      simp only [List.rtake, List.length_append, List.length_take, List.length_drop]
      omega
    rw [hlen, ← List.take_length_add_append, ← List.append_assoc, List.rtake,
      List.take_append_drop]

/-- A queue after a list of pushes holds the newest items. -/
theorem foldl_pushDropOldest (hcap : 0 < cap) {items : List α} (hq : q.length ≤ cap) :
    items.foldl (pushDropOldest cap) q = (q ++ items).rtake cap := by
  induction items generalizing q with
  | nil => rw [List.foldl_nil, List.append_nil, rtake_of_length_le hq]
  | cons x rest ih =>
    rw [List.foldl_cons, ih (length_pushDropOldest_le hcap hq), pushDropOldest_eq_rtake hcap hq,
      rtake_rtake_append, List.append_assoc, List.singleton_append]

end

/-! ## Readers -/

section Reader

variable {α : Type*} {cap start k : ℕ} {log taken queue : List α} {x : α}

/-- A queue that has been pushed to since `start` items of the log were written, and from
which a reader took items: it holds the log from position `k` on. -/
structure Cursor (cap start : ℕ) (log taken queue : List α) (k : ℕ) : Prop where
  started : start ≤ k
  written : k ≤ log.length
  queue_eq_drop : queue = log.drop k
  bounded : queue.length ≤ cap
  taken_before : ∀ y ∈ taken, y ∈ log.take k
  passed : ∀ j y, start ≤ j → j < k → log[j]? = some y → y ∈ taken ∨ j + cap < log.length

/-- A reader that starts has read nothing, and nothing waits for it. -/
theorem Cursor.init : Cursor cap log.length log [] [] log.length where
  started := Nat.le_refl _
  written := Nat.le_refl _
  queue_eq_drop := by simp
  bounded := Nat.zero_le _
  taken_before := by simp
  passed := fun j y hstart hlt _ => absurd hlt (Nat.not_lt.mpr hstart)

/-- A push moves the cursor on when the queue is full. -/
theorem Cursor.push (h : Cursor cap start log taken queue k) (hcap : 0 < cap) (x : α) :
    ∃ k', Cursor cap start (log ++ [x]) taken (pushDropOldest cap queue x) k' := by
  have hlen : queue.length = log.length - k := by rw [h.queue_eq_drop, List.length_drop]
  have hwritten := h.written
  -- a full queue drops its oldest item, so the cursor passes it
  by_cases hfull : queue.length < cap
  · refine ⟨k, h.started, by simp; omega, ?_, length_pushDropOldest_le hcap h.bounded,
      fun y hy => ?_, fun j y hstart hlt hj => ?_⟩
    · rw [pushDropOldest, if_pos hfull, h.queue_eq_drop, List.drop_append_of_le_length hwritten]
    · rw [List.take_append_of_le_length hwritten]
      exact h.taken_before y hy
    · rw [List.getElem?_append_left (by omega)] at hj
      refine (h.passed j y hstart hlt hj).imp_right fun hpassed => ?_
      simp only [List.length_append, List.length_singleton]
      omega
  · have hbounded := h.bounded
    refine ⟨k + 1, Nat.le_succ_of_le h.started, by simp; omega, ?_,
      length_pushDropOldest_le hcap h.bounded, fun y hy => ?_, fun j y hstart hlt hj => ?_⟩
    · rw [pushDropOldest, if_neg hfull, h.queue_eq_drop, List.tail_drop,
        List.drop_append_of_le_length (by omega)]
    · rw [List.take_append_of_le_length (by omega)]
      exact List.take_subset_take_left _ (Nat.le_succ k) (h.taken_before y hy)
    · rw [List.getElem?_append_left (by omega)] at hj
      simp only [List.length_append, List.length_singleton]
      rcases Nat.lt_succ_iff_lt_or_eq.mp hlt with hlt | rfl
      · exact (h.passed j y hstart hlt hj).imp_right fun hpassed => by omega
      · exact Or.inr (by omega)

/-- Taking the oldest item moves the cursor on. -/
theorem Cursor.take (h : Cursor cap start log taken (x :: queue) k) :
    Cursor cap start log (taken ++ [x]) queue (k + 1) := by
  have hk : k < log.length := by
    have hlen := congrArg List.length h.queue_eq_drop
    rw [List.length_cons, List.length_drop] at hlen
    omega
  have hdrop := h.queue_eq_drop
  rw [List.drop_eq_getElem_cons hk] at hdrop
  obtain ⟨rfl, rfl⟩ := List.cons.inj hdrop
  refine ⟨Nat.le_succ_of_le h.started, hk, rfl, Nat.le_of_succ_le h.bounded, fun y hy => ?_,
    fun j y hstart hlt hj => ?_⟩
  · rw [List.take_succ_eq_append_getElem hk]
    rcases List.mem_append.mp hy with hy | hy
    · exact List.mem_append_left _ (h.taken_before y hy)
    · exact List.mem_append_right _ hy
  · rcases Nat.lt_succ_iff_lt_or_eq.mp hlt with hlt | rfl
    · exact (h.passed j y hstart hlt hj).imp_left (List.mem_append_left _)
    · rw [List.getElem?_eq_getElem hk] at hj
      obtain rfl := Option.some.inj hj
      exact Or.inl (List.mem_append_right _ (List.mem_singleton_self _))

/-- Taking everything moves the cursor to the end. -/
theorem Cursor.drain (h : Cursor cap start log taken queue k) :
    Cursor cap start log (taken ++ queue) [] log.length := by
  induction queue generalizing taken k with
  | nil =>
    have hk : k = log.length :=
      Nat.le_antisymm h.written (List.drop_eq_nil_iff.mp h.queue_eq_drop.symm)
    rw [List.append_nil, ← hk]
    exact h
  | cons x rest ih =>
    have hrest := ih h.take
    rwa [List.append_assoc, List.singleton_append] at hrest

/-- Of the newest `cap` items, those that were not taken. -/
def unread [DecidableEq α] (cap : ℕ) (items taken : List α) : List α :=
  (items.rtake cap).filter fun y => decide (y ∉ taken)

/-- The queue holds those of the newest `cap` items since `start` that the reader did not
take. -/
theorem Cursor.queue_eq [DecidableEq α] (h : Cursor cap start log taken queue k)
    (hlog : log.Nodup) : queue = unread cap (log.drop start) taken := by
  have hlen : queue.length = log.length - k := by rw [h.queue_eq_drop, List.length_drop]
  have hbounded := h.bounded
  have hstarted := h.started
  have hwritten := h.written
  obtain ⟨m, hm, hstart, hmk, hmcap⟩ : ∃ m, (log.drop start).rtake cap = log.drop m ∧
      start ≤ m ∧ m ≤ k ∧ log.length ≤ m + cap := by
    refine ⟨start + (log.length - start - cap), ?_, by omega, by omega, by omega⟩
    rw [List.rtake, List.length_drop, List.drop_drop]
  -- Before the cursor everything that is new enough was taken, behind it nothing was.
  have hsplit : log.drop m = (log.drop m).take (k - m) ++ log.drop k := by
    conv_lhs => rw [← List.take_append_drop (k - m) (log.drop m), List.drop_drop,
      Nat.add_sub_cancel' hmk]
  have hbefore : ((log.drop m).take (k - m)).filter (fun y => decide (y ∉ taken)) = [] := by
    refine List.filter_eq_nil_iff.mpr fun y hy => ?_
    obtain ⟨i, hi⟩ := List.mem_iff_getElem?.mp hy
    rw [List.getElem?_take] at hi
    split at hi
    · rename_i hlt
      rw [List.getElem?_drop] at hi
      rcases h.passed (m + i) y (by omega) (by omega) hi with hmem | hold
      · simpa using hmem
      · omega
    · cases hi
  have hbehind : (log.drop k).filter (fun y => decide (y ∉ taken)) = log.drop k := by
    refine List.filter_eq_self.mpr fun y hy => ?_
    rw [decide_eq_true_eq]
    intro hmem
    rw [← List.take_append_drop k log] at hlog
    exact List.disjoint_of_nodup_append hlog (h.taken_before y hmem) hy
  rw [unread, hm, hsplit, List.filter_append, hbefore, hbehind, List.nil_append, h.queue_eq_drop]

end Reader

/-! ## Putting items back

A reader that sets items aside and puts them back behind the queue leaves the newest items in
order only where there was nothing to put back or nothing to put it behind. -/

section PutBack

variable {α : Type*} {cap : ℕ} {passed queue : List α} {keep : α → Bool}

/-- The newest items of two lists, the second of which fits. -/
theorem rtake_append (hqueue : queue.length ≤ cap) :
    (passed ++ queue).rtake cap = passed.rtake (cap - queue.length) ++ queue := by
  have hdrop : (passed ++ queue).length - cap = passed.length - (cap - queue.length) := by
    simp only [List.length_append]
    omega
  rw [List.rtake, List.rtake, hdrop, List.drop_append_of_le_length (Nat.sub_le _ _)]

/-- The last item is among the newest. -/
theorem getLast?_rtake (hcap : 0 < cap) (l : List α) : (l.rtake cap).getLast? = l.getLast? := by
  cases l using List.reverseRecOn with
  | nil => simp
  | append_singleton l x =>
    have hone : [x].length ≤ cap := hcap
    rw [rtake_append hone, List.getLast?_append, List.getLast?_append]
    simp

/-- Of the items that passed, those to keep are put back behind the queue. -/
theorem putBack_eq_iff (hcap : 0 < cap) (hqueue : queue.length ≤ cap)
    (hnodup : (passed ++ queue).Nodup) (hkeep : ∀ x ∈ queue, keep x = true) :
    (queue ++ passed.filter keep).rtake cap = (passed ++ queue).rtake cap ↔
      (passed.filter keep = [] ∨ queue = []) ∧
        ∀ x ∈ (passed ++ queue).rtake cap, keep x = true := by
  constructor
  · intro heq
    refine ⟨?_, fun x hx => ?_⟩
    · -- Otherwise the last item is one that was put back, and one that was queued.
      by_contra hboth
      rw [not_or] at hboth
      obtain ⟨hback, hrest⟩ := hboth
      have hlast := congrArg List.getLast? heq
      rw [getLast?_rtake hcap, getLast?_rtake hcap, List.getLast?_append_of_ne_nil _ hback,
        List.getLast?_append_of_ne_nil _ hrest, List.getLast?_eq_some_getLast hback] at hlast
      have hpassed := List.mem_of_mem_filter (List.getLast_mem hback)
      exact List.disjoint_of_nodup_append hnodup hpassed (List.mem_of_getLast? hlast.symm)
    · rw [← heq] at hx
      rcases List.mem_append.mp (List.mem_of_mem_drop hx) with hx | hx
      · exact hkeep x hx
      · exact List.of_mem_filter hx
  · rintro ⟨hor, hall⟩
    rw [rtake_append hqueue] at hall ⊢
    -- what the window holds of the passed items is all kept
    have hnew : (passed.rtake (cap - queue.length)).filter keep =
        passed.rtake (cap - queue.length) :=
      List.filter_eq_self.mpr fun x hx => hall x (List.mem_append_left _ hx)
    have hsplit : passed.filter keep =
        (passed.take (passed.length - (cap - queue.length))).filter keep ++
          passed.rtake (cap - queue.length) := by
      conv_lhs => rw [← List.take_append_drop (passed.length - (cap - queue.length)) passed,
        List.filter_append]
      rw [← List.rtake, hnew]
    rcases hor with hback | rfl
    · rw [hback] at hsplit ⊢
      obtain ⟨-, hnone⟩ := List.append_eq_nil_iff.mp hsplit.symm
      rw [hnone, List.append_nil, List.nil_append, rtake_of_length_le hqueue]
    · rw [List.nil_append, hsplit, List.append_nil]
      simp only [List.length_nil, Nat.sub_zero]
      by_cases hlong : passed.length ≤ cap
      · rw [Nat.sub_eq_zero_of_le hlong, List.take_zero, List.filter_nil, List.nil_append,
          rtake_of_length_le hlong, rtake_of_length_le hlong]
      · have hlen : (passed.rtake cap).length = cap := by
          rw [List.rtake, List.length_drop]
          omega
        rw [rtake_append hlen.le, hlen, Nat.sub_self, List.rtake_zero, List.nil_append]

end PutBack

end Semantics
