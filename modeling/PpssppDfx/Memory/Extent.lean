import PpssppDfx.Memory.WriteGuard
import PpssppDfx.Semantics.Largest

/-!
# The extent of the game module

A module list entry counts as the game module when it is loaded at the configured base or
has `top` in its name, and the largest entry that counts gives the extent. Nothing ties the
two tests together, so a library whose name contains `top` takes the place of the game
module as soon as it is larger. Nor is the extent bounded by the one that the guard falls
back to without a module list.

## Main results

* `coversGame_iff_not_displaced` — the extent holds the module at the base exactly unless
  another entry that counts displaces it
* `accepts_of_unknown_iff` — what the guard accepts without a module list it accepts with
  one exactly when the extent stays inside the fallback or exempt memory
-/

set_option autoImplicit false

namespace Memory

open Python Semantics

variable {addrs : Addresses} {modules : List Value} {s : ℤ}

/-! ## Choosing the module -/

/-- The size of an extent. -/
def ModuleRange.size (r : ModuleRange) : ℤ := r.stop - r.start

/-- The entries of a module list that count as the game module. -/
def candidates (addrs : Addresses) (modules : List Value) : List ModuleRange :=
  modules.filterMap (moduleRange (configuredModuleBase addrs))

/-- The extent that the guard takes from one entry. -/
def ModuleRange.code (r : ModuleRange) : Span := ⟨r.start, r.stop + safetyMarginBytes⟩

theorem largerRange_eq : largerRange = keepLarger ModuleRange.size := by
  funext best candidate
  cases best <;> rfl

/-- The extent is that of the first of the largest entries that count. -/
theorem codeSectionRange_eq_some_iff {code : Span} :
    codeSectionRange addrs (some modules) = some code ↔
      ∃ r, IsFirstLargest ModuleRange.size (candidates addrs modules) r ∧ r.code = code := by
  simp only [← foldl_keepLarger_eq_some_iff, ← largerRange_eq]
  exact Option.map_eq_some_iff

/-- An extent that counts is not empty. -/
theorem nonempty_of_mem_candidates {r : ModuleRange} (h : r ∈ candidates addrs modules) :
    r.code.lo < r.code.hi := by
  obtain ⟨entry, -, hentry⟩ := List.mem_filterMap.mp h
  unfold moduleRange at hentry
  split at hentry
  · split at hentry
    · rename_i addr size _ _
      split at hentry
      · cases hentry
      · dsimp only at hentry
        split at hentry
        · cases hentry
        · cases hentry
          simp only [ModuleRange.code, safetyMarginBytes]
          omega
    · cases hentry
  · cases hentry

theorem nonempty_of_codeSectionRange {code : Span}
    (h : codeSectionRange addrs (some modules) = some code) : code.lo < code.hi := by
  obtain ⟨r, hr, rfl⟩ := codeSectionRange_eq_some_iff.mp h
  exact nonempty_of_mem_candidates hr.mem

/-! ## Covering the game module -/

/-- The list has an entry loaded at the configured base with this size. -/
def LoadedAtBase (addrs : Addresses) (modules : List Value) (s : ℤ) : Prop :=
  ∃ fields, .dict fields ∈ modules ∧
    (Dict.get? fields "address").bind toInt = some (configuredModuleBase addrs) ∧
    (Dict.get? fields "size").bind toInt = some s ∧ 0 < s

/-- The span holds the first `s` bytes from the configured base. -/
def Covers (addrs : Addresses) (s : ℤ) (code : Span) : Prop :=
  code.lo ≤ configuredModuleBase addrs ∧ configuredModuleBase addrs + s ≤ code.hi

/-- The extent from the module list holds the first `s` bytes from the configured base. -/
def CoversGame (addrs : Addresses) (modules : List Value) (s : ℤ) : Prop :=
  ∃ code, codeSectionRange addrs (some modules) = some code ∧ Covers addrs s code

/-- An entry that counts as the game module does not hold the module at the base, and is
larger than those that count before it and no smaller than those after it. -/
def Displaced (addrs : Addresses) (modules : List Value) (s : ℤ) : Prop :=
  ∃ r, IsFirstLargest ModuleRange.size (candidates addrs modules) r ∧ ¬ Covers addrs s r.code

/-- The entry at the base counts as the game module, whatever its name is. -/
theorem LoadedAtBase.candidate (h : LoadedAtBase addrs modules s) :
    ∃ r ∈ candidates addrs modules, Covers addrs s r.code := by
  obtain ⟨fields, hmem, haddr, hsize, hpos⟩ := h
  refine ⟨⟨(((Dict.get? fields "name").getD .none).orElse (.str "")).text,
    configuredModuleBase addrs, configuredModuleBase addrs + s⟩,
    List.mem_filterMap.mpr ⟨_, hmem, ?_⟩, Int.le_refl _, ?_⟩
  · simp [moduleRange, haddr, hsize, Int.not_le.mpr hpos]
  · simp only [ModuleRange.code, safetyMarginBytes]
    omega

/-- The extent covers the module at the base exactly when no other entry displaces it. -/
theorem coversGame_iff_not_displaced (h : LoadedAtBase addrs modules s) :
    CoversGame addrs modules s ↔ ¬ Displaced addrs modules s := by
  obtain ⟨r, hr, -⟩ := h.candidate
  -- the entry at the base counts, so there is a first largest one that counts
  obtain ⟨b, -, hb⟩ := exists_foldl_keepLarger ModuleRange.size (List.ne_nil_of_mem hr)
  constructor
  · rintro ⟨code, hcode, hcovers⟩ ⟨r', hr', hnot⟩
    obtain ⟨r, hr, rfl⟩ := codeSectionRange_eq_some_iff.mp hcode
    obtain rfl := hr.eq hr'
    exact hnot hcovers
  · intro hnot
    refine ⟨b.code, codeSectionRange_eq_some_iff.mpr ⟨b, hb, rfl⟩, ?_⟩
    by_contra hcovers
    exact hnot ⟨b, hb, hcovers⟩

/-- A module list entry. -/
def moduleEntry (name : String) (address size : ℤ) : Value :=
  .dict [(.str "name", .str name), (.str "address", .int address), (.str "size", .int size)]

/-- The game module next to a smaller library. -/
def besideLibrary : List Value :=
  [moduleEntry "sceMpeg_library" 0x09E00000 0x8000, moduleEntry "top.prx" 0x08804000 0x347D00]

/-- The game module next to a larger library with `top` in its name. -/
def besideDesktop : List Value :=
  [moduleEntry "top.prx" 0x08804000 0x347D00, moduleEntry "desktop_overlay" 0x09000000 0x400000]

/-- Next to the smaller library the game module is covered. -/
theorem coversGame_besideLibrary : CoversGame (some []) besideLibrary 0x347D00 := by
  have hloaded : LoadedAtBase (some []) besideLibrary 0x347D00 :=
    ⟨_, List.mem_cons_of_mem _ List.mem_cons_self, rfl, rfl, by decide⟩
  refine (coversGame_iff_not_displaced hloaded).mpr ?_
  rintro ⟨r, hr, hnot⟩
  have hmem : r ∈ [(⟨"top.prx", 0x08804000, 0x08B4BD00⟩ : ModuleRange)] := hr.mem
  obtain rfl := List.mem_singleton.mp hmem
  exact hnot ⟨by decide, by decide⟩

/-- Next to the larger one it is not. -/
theorem not_coversGame_besideDesktop :
    LoadedAtBase (some []) besideDesktop 0x347D00 ∧
      ¬ CoversGame (some []) besideDesktop 0x347D00 := by
  refine ⟨⟨_, List.mem_cons_self, rfl, rfl, by decide⟩, ?_⟩
  rintro ⟨code, hcode, hlo, -⟩
  have hdesktop : codeSectionRange (some []) (some besideDesktop) =
      some ⟨0x09000000, 0x09410000⟩ := rfl
  obtain rfl := Option.some.inj (hdesktop.symm.trans hcode)
  exact absurd hlo (by decide)

/-! ## The fallback extent -/

variable {address byteCount : ℤ}

/-- The unforced guard of a session accepts the write. -/
def Accepts (addrs : Addresses) (modules : Option (List Value)) (address byteCount : ℤ) : Prop :=
  checkProtectedAddress addrs address byteCount false modules "wide" = .ok ()

/-- Every byte of the extent from the module list lies in the fallback extent, in kernel
memory or in an allowed region; or the configuration has a top-level key that is not text. -/
def StaysInFallback (addrs : Addresses) (modules : List Value) : Prop :=
  (∃ e, declaredDataRanges addrs = .error e) ∨
    ∀ code, codeSectionRange addrs (some modules) = some code → ∀ x, code.Mem x →
      (conservativeCodeExtent addrs).Mem x ∨ protectedRangeKernel.Mem x ∨ InAllowed addrs x

theorem nonempty_conservativeCodeExtent (addrs : Addresses) :
    (conservativeCodeExtent addrs).lo < (conservativeCodeExtent addrs).hi := by
  simp only [conservativeCodeExtent, heuristicTopPrxSize]
  omega

/-- Without a module list the guard protects kernel memory and the fallback extent. -/
theorem accepts_unknown_iff : Accepts addrs none address byteCount ↔
    ∃ allowed, inAllowedSpan addrs (writeSpan address byteCount) = .ok allowed ∧
      (allowed.isSome = true ∨
        (writeSpan address byteCount).overlaps protectedRangeKernel = false ∧
          (writeSpan address byteCount).overlaps (conservativeCodeExtent addrs) = false) := by
  simp only [Accepts, check_eq_ok_iff]
  constructor
  · rintro ⟨allowed, ranges, hallowed, ⟨⟩, hor⟩
    exact ⟨allowed, hallowed, by simpa using hor⟩
  · rintro ⟨allowed, hallowed, hor⟩
    exact ⟨allowed, _, hallowed, rfl, by simpa using hor⟩

/-- With a usable module list it protects kernel memory and the extent of the list. -/
theorem accepts_known_iff {code : Span}
    (hcode : codeSectionRange addrs (some modules) = some code) :
    Accepts addrs (some modules) address byteCount ↔
      ∃ allowed, inAllowedSpan addrs (writeSpan address byteCount) = .ok allowed ∧
        (allowed.isSome = true ∨
          (writeSpan address byteCount).overlaps protectedRangeKernel = false ∧
            (writeSpan address byteCount).overlaps code = false) := by
  have hranges : effectiveRanges addrs (some modules) "wide" =
      .ok [(kernelRangeName, protectedRangeKernel), (codeSectionRangeName, code)] := by
    simp only [effectiveRanges, codeExtent, hcode]
    rfl
  simp only [Accepts, check_eq_ok_iff, hranges]
  constructor
  · rintro ⟨allowed, ranges, hallowed, ⟨⟩, hor⟩
    exact ⟨allowed, hallowed, by simpa using hor⟩
  · rintro ⟨allowed, hallowed, hor⟩
    exact ⟨allowed, _, hallowed, rfl, by simpa using hor⟩

/-- An unusable module list counts as none. -/
theorem accepts_unusable_iff (hnone : codeSectionRange addrs (some modules) = none) :
    Accepts addrs (some modules) address byteCount ↔ Accepts addrs none address byteCount := by
  have hranges : effectiveRanges addrs (some modules) "wide" =
      effectiveRanges addrs none "wide" := by
    simp only [effectiveRanges, codeExtent, hnone]
    rfl
  simp only [Accepts, check_eq_ok_iff, hranges]

/-- The search for a region raises only where the configuration does. -/
theorem exists_inAllowedSpan (h : ¬ ∃ e, declaredDataRanges addrs = .error e) (write : Span) :
    ∃ allowed, inAllowedSpan addrs write = .ok allowed := by
  unfold inAllowedSpan
  split
  · exact ⟨_, rfl⟩
  · cases hdeclared : declaredDataRanges addrs with
    | error e => exact absurd ⟨e, hdeclared⟩ h
    | ok declared => exact ⟨_, rfl⟩

/-- Where the configuration raises, only the fixed regions are found. -/
theorem isSome_of_declared_error {write : Span} {allowed : Option String} {e : GuardError}
    (he : declaredDataRanges addrs = .error e) (h : inAllowedSpan addrs write = .ok allowed) :
    allowed.isSome = true := by
  unfold inAllowedSpan at h
  split at h
  · cases h
    rfl
  · rw [he] at h
    cases h

/-- A write of one byte. -/
theorem mem_writeSpan_one {x y : ℤ} : (writeSpan x 1).Mem y ↔ y = x := by
  rw [writeSpan_of_pos (Int.le_refl 1), Span.mem_iff]
  constructor
  · rintro ⟨hlo, hhi⟩
    simp only at hlo hhi
    omega
  · rintro rfl
    simp only
    omega

/-- A span that shares no byte with a nonempty one does not overlap it. -/
theorem not_overlaps_byte {x : ℤ} {t : Span} (ht : t.lo < t.hi) (hx : ¬ t.Mem x) :
    (writeSpan x 1).overlaps t = false := by
  by_contra hover
  obtain ⟨y, hy, hin⟩ := (Span.overlaps_iff writeSpan_nonempty ht).mp
    (Bool.not_eq_false _ ▸ hover)
  obtain rfl := mem_writeSpan_one.mp hy
  exact hx hin

/-- Where the extent reaches further, the write of a byte of it is decided by the list. -/
theorem staysInFallback_of_accepts
    (h : ∀ address byteCount, Accepts addrs none address byteCount →
      Accepts addrs (some modules) address byteCount) : StaysInFallback addrs modules := by
  by_contra hstays
  obtain ⟨hdeclared, hout⟩ := not_or.mp hstays
  push Not at hout
  obtain ⟨code, hcode, x, hx, hfallback, hkernel, hfree⟩ := hout
  -- The byte alone is accepted without the list and rejected with it.
  obtain ⟨allowed, hallowed⟩ := exists_inAllowedSpan hdeclared (writeSpan x 1)
  have hregion : ¬ allowed.isSome = true := by
    rw [inAllowedSpan_isSome_iff hallowed]
    rintro ⟨region, hmem, hover⟩
    rw [not_overlaps_byte region.nonempty fun hin => hfree ⟨region, hmem, hin⟩] at hover
    exact absurd hover (by decide)
  have hknown := h x 1 (accepts_unknown_iff.mpr ⟨allowed, hallowed, Or.inr
    ⟨not_overlaps_byte (by decide) hkernel,
      not_overlaps_byte (nonempty_conservativeCodeExtent addrs) hfallback⟩⟩)
  obtain ⟨allowed', hallowed', hor⟩ := (accepts_known_iff hcode).mp hknown
  obtain rfl := Except.ok.inj (hallowed.symm.trans hallowed')
  rcases hor with hsome | ⟨-, hcodefree⟩
  · exact hregion hsome
  · rw [Span.overlaps_of_mem (mem_writeSpan_one.mpr rfl) hx] at hcodefree
    exact absurd hcodefree (by decide)

/-- Where the extent reaches no further, the list adds no objection. -/
theorem accepts_of_staysInFallback (hstays : StaysInFallback addrs modules) {address byteCount : ℤ}
    (hok : Accepts addrs none address byteCount) :
    Accepts addrs (some modules) address byteCount := by
  cases hcode : codeSectionRange addrs (some modules) with
  | none => exact (accepts_unusable_iff hcode).mpr hok
  | some code =>
    obtain ⟨allowed, hallowed, hor⟩ := accepts_unknown_iff.mp hok
    refine (accepts_known_iff hcode).mpr ⟨allowed, hallowed, ?_⟩
    rcases hor with hsome | ⟨hkernel, hfallback⟩
    · exact Or.inl hsome
    by_cases hsome : allowed.isSome = true
    · exact Or.inl hsome
    refine Or.inr ⟨hkernel, ?_⟩
    rcases hstays with ⟨e, he⟩ | hstays
    · exact absurd (isSome_of_declared_error he hallowed) hsome
    -- a byte of the write in the extent is in one of the three, and each was decided
    by_contra hover
    obtain ⟨x, hwrite, hx⟩ := (Span.overlaps_iff writeSpan_nonempty
      (nonempty_of_codeSectionRange hcode)).mp (Bool.not_eq_false _ ▸ hover)
    rcases hstays code hcode x hx with hin | hin | ⟨region, hmem, hin⟩
    · rw [Span.overlaps_of_mem hwrite hin] at hfallback
      exact absurd hfallback (by decide)
    · rw [Span.overlaps_of_mem hwrite hin] at hkernel
      exact absurd hkernel (by decide)
    · exact hsome ((inAllowedSpan_isSome_iff hallowed).mpr
        ⟨region, hmem, Span.overlaps_of_mem hwrite hin⟩)

/-- A module list narrows no write that the guard accepts without one exactly when its
extent stays in the fallback extent or in memory that is decided without it. -/
theorem accepts_of_unknown_iff :
    (∀ address byteCount, Accepts addrs none address byteCount →
        Accepts addrs (some modules) address byteCount) ↔ StaysInFallback addrs modules :=
  ⟨staysInFallback_of_accepts, fun hstays _ _ hok => accepts_of_staysInFallback hstays hok⟩

/-- A game module of the size that the fallback assumes. -/
def wideModule : List Value := [moduleEntry "top.prx" 0x08804000 0x530000]

/-- The byte behind it is accepted without the module list and rejected with it. -/
theorem narrowed_behindModule :
    Accepts (some []) none 0x08D34000 1 ∧
      codeSectionRange (some []) (some wideModule) = some ⟨0x08804000, 0x08D44000⟩ ∧
      ¬ Accepts (some []) (some wideModule) 0x08D34000 1 := by
  have hcode : codeSectionRange (some []) (some wideModule) =
      some ⟨0x08804000, 0x08D44000⟩ := rfl
  refine ⟨rfl, hcode, fun haccepts => ?_⟩
  obtain ⟨allowed, hallowed, hor⟩ := (accepts_known_iff hcode).mp haccepts
  obtain rfl := Except.ok.inj ((show inAllowedSpan (some []) (writeSpan 0x08D34000 1) =
    .ok none from rfl).symm.trans hallowed)
  rcases hor with hsome | ⟨-, hfree⟩
  · exact absurd hsome (by decide)
  · exact absurd hfree (by decide)

end Memory
