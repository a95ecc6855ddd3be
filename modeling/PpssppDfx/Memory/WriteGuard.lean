import PpssppDfx.Memory.Protection

/-!
# What the write guard lets through

The guard drops every objection to a write as soon as the write overlaps one
allowed region; it does not ask whether the region covers the write. The main
result says exactly when an accepted write keeps out of protected memory: unless
it straddles, that is, touches an allowed region and also covers a protected byte
that no allowed region holds.

## Main results

* `check_eq_ok_iff` — the writes that the unforced guard accepts
* `writeSound_iff_not_straddles` — soundness of the guard holds exactly off the
  straddling writes
-/

set_option autoImplicit false

namespace Memory

open Python Semantics

section Scan

variable {write : Span} {allowed : Option String} {hint : String → String}

/-- The scan passes when a region was found or nothing protected is overlapped. -/
theorem scanRanges_eq_ok_iff {ranges : List (String × Span)} :
    scanRanges write allowed hint ranges = .ok () ↔
      allowed.isSome = true ∨ ∀ p ∈ ranges, write.overlaps p.2 = false := by
  induction ranges with
  | nil => simp [scanRanges]
  | cons p rest ih =>
    obtain ⟨name, range⟩ := p
    by_cases hover : write.overlaps range = true
    -- an overlapped range ends the search, unless the write is allowed
    · by_cases hallowed : allowed.isSome = true
      · simp [scanRanges, hover, hallowed, ih]
      · simp [scanRanges, hover, hallowed]
    · simp [scanRanges, hover, ih]

theorem firstOverlapping_isSome_iff {regions : List Region} :
    (firstOverlapping write regions).isSome = true ↔
      ∃ region ∈ regions, write.overlaps region.span = true := by
  simp [firstOverlapping]

end Scan

section Guard

variable (addrs : Addresses) (modules : Option (List Value)) (extentWhenUnknown : String)
variable (address byteCount : ℤ)

/-- The allowed regions of a configuration: the fixed ones and the declared ones. -/
def allowedRegions : List Region :=
  allowedInKernelSpan ++
    match declaredDataRanges addrs with
    | .ok declared => declared
    | .error _ => []

/-- A byte that some allowed region holds. -/
def InAllowed (x : ℤ) : Prop := ∃ region ∈ allowedRegions addrs, region.span.Mem x

/-- A byte in one of the protected ranges of the check. -/
def InProtected (x : ℤ) : Prop :=
  ∃ ranges, effectiveRanges addrs modules extentWhenUnknown = .ok ranges ∧
    ∃ p ∈ ranges, p.2.Mem x

/-- If the unforced guard returns, every protected byte of the write is an allowed one. -/
def WriteSound : Prop :=
  checkProtectedAddress addrs address byteCount false modules extentWhenUnknown = .ok () →
    ∀ x, address ≤ x → x < address + byteCount →
      InProtected addrs modules extentWhenUnknown x → InAllowed addrs x

/-- The write shares a byte with an allowed region and covers a protected byte
outside all of them. -/
def Straddles : Prop :=
  (∃ region ∈ allowedRegions addrs, ∃ x,
      (writeSpan address byteCount).Mem x ∧ region.span.Mem x) ∧
    ∃ y, (writeSpan address byteCount).Mem y ∧
      InProtected addrs modules extentWhenUnknown y ∧ ¬ InAllowed addrs y

variable {addrs modules extentWhenUnknown address byteCount}

theorem writeSpan_of_pos (h : 1 ≤ byteCount) :
    writeSpan address byteCount = ⟨address, address + byteCount⟩ := by
  simp [writeSpan, show byteCount > 0 by omega]

theorem writeSpan_nonempty :
    (writeSpan address byteCount).lo < (writeSpan address byteCount).hi := by
  simp only [writeSpan]
  split <;> omega

/-- The search finds a region exactly when an allowed region overlaps the write. -/
theorem inAllowedSpan_isSome_iff {write : Span} {allowed : Option String}
    (h : inAllowedSpan addrs write = .ok allowed) :
    allowed.isSome = true ↔ ∃ region ∈ allowedRegions addrs, write.overlaps region.span = true := by
  unfold inAllowedSpan at h
  cases hfixed : firstOverlapping write allowedInKernelSpan with
  | some label =>
    rw [hfixed] at h
    -- the fixed regions are looked at first
    obtain rfl : some label = allowed := by simpa using h
    obtain ⟨region, hmem, hover⟩ := firstOverlapping_isSome_iff.mp (by rw [hfixed]; rfl)
    simp only [Option.isSome_some, true_iff]
    exact ⟨region, List.mem_append_left _ hmem, hover⟩
  | none =>
    rw [hfixed] at h
    have hnone : ¬ ∃ region ∈ allowedInKernelSpan, write.overlaps region.span = true := by
      rw [← firstOverlapping_isSome_iff, hfixed]
      simp
    cases hdecl : declaredDataRanges addrs with
    | error e => simp [hdecl, Except.map] at h
    | ok declared =>
      obtain rfl : firstOverlapping write declared = allowed := by
        simpa [hdecl, Except.map] using h
      rw [firstOverlapping_isSome_iff]
      simp only [allowedRegions, hdecl, List.mem_append]
      constructor
      · rintro ⟨region, hmem, hover⟩
        exact ⟨region, Or.inr hmem, hover⟩
      · rintro ⟨region, hmem | hmem, hover⟩
        · exact absurd ⟨region, hmem, hover⟩ hnone
        · exact ⟨region, hmem, hover⟩

/-- If an allowed region overlaps the write, the search returns one. -/
theorem inAllowedSpan_of_overlaps {write : Span} {region : Region}
    (hmem : region ∈ allowedRegions addrs) (hover : write.overlaps region.span = true) :
    ∃ label, inAllowedSpan addrs write = .ok (some label) := by
  unfold inAllowedSpan
  cases hfixed : firstOverlapping write allowedInKernelSpan with
  | some label => exact ⟨label, rfl⟩
  | none =>
    rcases List.mem_append.mp hmem with hmem | hmem
    · have := firstOverlapping_isSome_iff.mpr ⟨region, hmem, hover⟩
      simp [hfixed] at this
    · cases hdecl : declaredDataRanges addrs with
      | error e => simp [hdecl] at hmem
      | ok declared =>
        rw [hdecl] at hmem
        obtain ⟨label, hlabel⟩ := Option.isSome_iff_exists.mp
          (firstOverlapping_isSome_iff.mpr ⟨region, hmem, hover⟩)
        exact ⟨label, by simp [Except.map, hlabel]⟩

/-- The writes that the unforced guard accepts. -/
theorem check_eq_ok_iff :
    checkProtectedAddress addrs address byteCount false modules extentWhenUnknown = .ok () ↔
      ∃ allowed ranges,
        inAllowedSpan addrs (writeSpan address byteCount) = .ok allowed ∧
        effectiveRanges addrs modules extentWhenUnknown = .ok ranges ∧
        (allowed.isSome = true ∨
          ∀ p ∈ ranges, (writeSpan address byteCount).overlaps p.2 = false) := by
  cases hallowed : inAllowedSpan addrs (writeSpan address byteCount) with
  | error e => simp [checkProtectedAddress, hallowed, bind, Except.bind]
  | ok allowed =>
    cases hranges : effectiveRanges addrs modules extentWhenUnknown with
    | error e => simp [checkProtectedAddress, hallowed, hranges, bind, Except.bind]
    | ok ranges =>
      simp [checkProtectedAddress, hallowed, hranges, bind, Except.bind, scanRanges_eq_ok_iff]

/-- A write that straddles is accepted. -/
theorem Straddles.accepted
    (h : Straddles addrs modules extentWhenUnknown address byteCount) :
    checkProtectedAddress addrs address byteCount false modules extentWhenUnknown = .ok () := by
  obtain ⟨⟨region, hmem, x, hwrite, hx⟩, y, _, ⟨ranges, hranges, _⟩, _⟩ := h
  obtain ⟨label, hlabel⟩ := inAllowedSpan_of_overlaps hmem (Span.overlaps_of_mem hwrite hx)
  exact check_eq_ok_iff.mpr ⟨some label, ranges, hlabel, hranges, Or.inl rfl⟩

/-- An accepted write that touches no allowed region covers no protected byte. -/
theorem not_inProtected_of_accepted {x : ℤ}
    (hok : checkProtectedAddress addrs address byteCount false modules extentWhenUnknown = .ok ())
    (htouch : ¬ ∃ region ∈ allowedRegions addrs, ∃ y,
      (writeSpan address byteCount).Mem y ∧ region.span.Mem y)
    (hx : (writeSpan address byteCount).Mem x) :
    ¬ InProtected addrs modules extentWhenUnknown x := by
  rintro ⟨ranges, hranges, p, hp, hpx⟩
  obtain ⟨allowed, ranges', hallowed, hranges', hor⟩ := check_eq_ok_iff.mp hok
  obtain rfl : ranges = ranges' := by simpa [hranges] using hranges'
  rcases hor with hsome | hfree
  · obtain ⟨region, hmem, hover⟩ := (inAllowedSpan_isSome_iff hallowed).mp hsome
    exact htouch ⟨region, hmem,
      (Span.overlaps_iff writeSpan_nonempty region.nonempty).mp hover⟩
  · have := Span.overlaps_of_mem hx hpx
    simp [hfree p hp] at this

/-- The guard is sound for a write of at least one byte exactly when the write
does not straddle. -/
theorem writeSound_iff_not_straddles (h : 1 ≤ byteCount) :
    WriteSound addrs modules extentWhenUnknown address byteCount ↔
      ¬ Straddles addrs modules extentWhenUnknown address byteCount := by
  have hmem (x : ℤ) : (writeSpan address byteCount).Mem x ↔
      address ≤ x ∧ x < address + byteCount := by
    rw [writeSpan_of_pos h, Span.mem_iff]
  constructor
  · intro hsound hstr
    have hok := hstr.accepted
    obtain ⟨_, y, hy, hprot, hout⟩ := hstr
    obtain ⟨hlo, hhi⟩ := (hmem y).mp hy
    exact hout (hsound hok y hlo hhi hprot)
  · intro hstr hok x hlo hhi hprot
    have hx := (hmem x).mpr ⟨hlo, hhi⟩
    -- a write that touches no allowed region covers nothing protected, and one that does straddles
    by_contra hout
    have htouch : ¬ ∃ region ∈ allowedRegions addrs, ∃ y,
        (writeSpan address byteCount).Mem y ∧ region.span.Mem y :=
      fun htouch => hstr ⟨htouch, x, hx, hprot, hout⟩
    exact not_inProtected_of_accepted hok htouch hx hprot

end Guard

/-- Eight bytes at the end of the scratchpad: the last four are kernel memory. -/
theorem not_writeSound_scratchpad_end :
    ¬ WriteSound (some []) none "wide" 0x00013FFC 8 := by
  intro hsound
  have hok : checkProtectedAddress (some []) 0x00013FFC 8 false none "wide" = .ok () := rfl
  have hprot : InProtected (some []) none "wide" 0x00014000 :=
    ⟨_, rfl, (kernelRangeName, protectedRangeKernel), by simp, by decide⟩
  obtain ⟨region, hmem, hx⟩ := hsound hok 0x00014000 (by decide) (by decide) hprot
  have hfixed : region ∈ allowedInKernelSpan := by
    simpa [allowedRegions, declaredDataRanges, Dict.get?, scalarRegions, Except.map] using hmem
  simp only [allowedInKernelSpan, List.mem_cons, List.not_mem_nil, or_false] at hfixed
  rcases hfixed with rfl | rfl
  · exact absurd hx (by decide)
  · exact absurd hx (by decide)

/-- Four bytes inside the scratchpad do not straddle, so the guard is sound for them. -/
theorem writeSound_scratchpad :
    WriteSound (some []) none "wide" 0x00010000 4 := by
  refine (writeSound_iff_not_straddles (by decide)).mpr ?_
  rintro ⟨_, y, hy, _, hout⟩
  refine hout ⟨⟨⟨0x00010000, 0x00014000⟩, "Scratchpad", by decide⟩, ?_, ?_⟩
  · simp [allowedRegions, allowedInKernelSpan]
  · rw [writeSpan_of_pos (by decide), Span.mem_iff] at hy
    rw [Span.mem_iff]
    simp only at hy ⊢
    omega

end Memory
