import Mathlib.Data.List.TakeDrop
import Mathlib.Data.Nat.Notation

/-!
# Frames of varying size

A byte stream is a concatenation of frames when each frame tells its own size within a header
of constant size. The frames of a stream are then determined: the first one is what its header
says, and the others are the frames of the rest.

## Main definitions

* `Semantics.Framing` — the size of the frame that a list starts with
* `Framing.Frames` — the frames that a list consists of

## Main results

* `Framing.frames_cons_iff` — the first frame and the rest
* `Framing.Frames.unique` — a list consists of its frames in one way
-/

set_option autoImplicit false

namespace Semantics

/-- The size of the frame that a list starts with, which the header of the frame tells. -/
structure Framing (β : Type*) where
  header : ℕ
  size : List β → ℕ
  header_pos : 0 < header
  header_le_size : ∀ s, header ≤ size s
  size_append : ∀ s t, header ≤ s.length → size (s ++ t) = size s

namespace Framing

variable {β : Type*} (f : Framing β)

/-- The list is one frame. -/
def IsFrame (r : List β) : Prop := r.length = f.size r

/-- The list is the concatenation of the frames. -/
def Frames (s : List β) (frames : List (List β)) : Prop :=
  s = frames.flatten ∧ ∀ r ∈ frames, f.IsFrame r

variable {f} {s r : List β} {frames frames' : List (List β)}

theorem IsFrame.header_le (h : f.IsFrame r) : f.header ≤ r.length := by
  rw [h]
  exact f.header_le_size r

/-- A frame at the start of a list is what the list says. -/
theorem IsFrame.size_append (h : f.IsFrame r) (t : List β) : f.size (r ++ t) = r.length :=
  (f.size_append r t h.header_le).trans h.symm

/-- What a list starts with is a frame if it is long enough. -/
theorem isFrame_take (h : f.size s ≤ s.length) : f.IsFrame (s.take (f.size s)) := by
  have hlength : (s.take (f.size s)).length = f.size s := List.length_take_of_le h
  have hheader : f.header ≤ (s.take (f.size s)).length := by
    rw [hlength]
    exact f.header_le_size s
  have hsize := f.size_append (s.take (f.size s)) (s.drop (f.size s)) hheader
  rw [List.take_append_drop] at hsize
  exact hlength.trans hsize

theorem frames_nil_iff : f.Frames s [] ↔ s = [] := by
  simp [Frames]

/-- The frames of a list are the one that it starts with and those of the rest. -/
theorem frames_cons_iff : f.Frames s (r :: frames) ↔
    f.size s ≤ s.length ∧ r = s.take (f.size s) ∧ f.Frames (s.drop (f.size s)) frames := by
  constructor
  · rintro ⟨rfl, hall⟩
    -- the first frame has a whole header, so what follows it does not change its size
    have hr := hall r List.mem_cons_self
    rw [List.flatten_cons, hr.size_append, List.length_append, List.take_left, List.drop_left]
    exact ⟨Nat.le_add_right _ _, rfl, rfl, fun r' hr' => hall r' (List.mem_cons_of_mem _ hr')⟩
  · rintro ⟨hsize, rfl, hrest, hall⟩
    refine ⟨?_, ?_⟩
    · rw [List.flatten_cons, ← hrest, List.take_append_drop]
    · intro r' hr'
      rcases List.mem_cons.mp hr' with rfl | hr'
      · exact isFrame_take hsize
      · exact hall r' hr'

/-- An empty list has no frames. -/
theorem Frames.eq_nil (h : f.Frames [] frames) : frames = [] := by
  cases frames with
  | nil => rfl
  | cons r rest =>
    have hsize : f.size [] ≤ 0 := (frames_cons_iff.mp h).1
    have hpos := Nat.lt_of_lt_of_le f.header_pos (f.header_le_size [])
    exact absurd hsize (Nat.not_le_of_gt hpos)

/-- A list consists of its frames in one way. -/
theorem Frames.unique (h : f.Frames s frames) (h' : f.Frames s frames') : frames = frames' := by
  induction frames generalizing s frames' with
  | nil =>
    rw [frames_nil_iff.mp h] at h'
    exact h'.eq_nil.symm
  | cons r rest ih =>
    -- both first frames are what the list says
    obtain ⟨hsize, rfl, hrest⟩ := frames_cons_iff.mp h
    cases frames' with
    | nil =>
      obtain rfl := frames_nil_iff.mp h'
      exact h.eq_nil
    | cons r' rest' =>
      obtain ⟨-, rfl, hrest'⟩ := frames_cons_iff.mp h'
      rw [ih hrest hrest']

end Framing

end Semantics
