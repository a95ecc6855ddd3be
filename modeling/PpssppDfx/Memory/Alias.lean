import PpssppDfx.Memory.Extent

/-!
# The write guard and mirrored memory

The emulator maps the same memory at several addresses: each mirror range of its memory
mapping repeats a primary range at a constant offset. The guard compares raw addresses with
the protected and allowed ranges, which are all given in primary addresses, so it says the
same of a byte and of its alias only where these ranges happen to agree.

## Main definitions

* `Memory.Mirror` — a mirror range and the primary range it repeats
* `Memory.NoBypass` — what is accepted at an alias is accepted at the primary address
* `Memory.Mirror.KeepsGuard` — the protected bytes of the primary range are protected in the
  mirror as well

## Main results

* `accepts_iff` — the writes that the guard of a session accepts, byte by byte
* `noBypass_iff` — no write passes through a mirror exactly when every mirror keeps the guard
-/

set_option autoImplicit false

namespace Memory

open Python Semantics

variable {addrs : Addresses} {modules : Option (List Value)} {address byteCount x y : ℤ}

/-! ## What the guard accepts -/

/-- The guard objects to the byte unless an allowed region is touched: a protected byte, or
any byte at all where the lookup of the declared regions raises. -/
def Guarded (addrs : Addresses) (modules : Option (List Value)) (x : ℤ) : Prop :=
  (∃ e, declaredDataRanges addrs = .error e) ∨ InProtected addrs modules "wide" x

/-- The guard of a session always has its ranges, and none of them is empty. -/
theorem exists_effectiveRanges (addrs : Addresses) (modules : Option (List Value)) :
    ∃ ranges, effectiveRanges addrs modules "wide" = .ok ranges ∧
      ∀ p ∈ ranges, p.2.lo < p.2.hi := by
  have hkernel : protectedRangeKernel.lo < protectedRangeKernel.hi := by decide
  have hcode : ∃ code, codeExtent addrs modules "wide" = .ok code ∧ code.lo < code.hi := by
    unfold codeExtent
    cases hlist : codeSectionRange addrs modules with
    | none => exact ⟨_, rfl, nonempty_conservativeCodeExtent addrs⟩
    | some code =>
      refine ⟨code, rfl, ?_⟩
      cases modules with
      | none => cases hlist
      | some modules => exact nonempty_of_codeSectionRange hlist
  obtain ⟨code, hextent, hnonempty⟩ := hcode
  refine ⟨[(kernelRangeName, protectedRangeKernel), (codeSectionRangeName, code)], ?_, ?_⟩
  · rw [effectiveRanges, hextent]
    rfl
  · intro p hp
    simp only [List.mem_cons, List.not_mem_nil, or_false] at hp
    rcases hp with rfl | rfl
    · exact hkernel
    · exact hnonempty

/-- The lookup finds a region exactly when a byte of the write is in an allowed one. -/
theorem isSome_iff_inAllowed {allowed : Option String}
    (h : inAllowedSpan addrs (writeSpan address byteCount) = .ok allowed) :
    allowed.isSome = true ↔ ∃ x, (writeSpan address byteCount).Mem x ∧ InAllowed addrs x := by
  rw [inAllowedSpan_isSome_iff h]
  constructor
  · rintro ⟨region, hmem, hover⟩
    obtain ⟨x, hx, hin⟩ := (Span.overlaps_iff writeSpan_nonempty region.nonempty).mp hover
    exact ⟨x, hx, region, hmem, hin⟩
  · rintro ⟨x, hx, region, hmem, hin⟩
    exact ⟨region, hmem, Span.overlaps_of_mem hx hin⟩

/-- The guard accepts a write that touches an allowed region, and one without a byte that
it objects to. -/
theorem accepts_iff : Accepts addrs modules address byteCount ↔
    (∃ x, (writeSpan address byteCount).Mem x ∧ InAllowed addrs x) ∨
      ∀ x, (writeSpan address byteCount).Mem x → ¬ Guarded addrs modules x := by
  obtain ⟨ranges, hranges, hnonempty⟩ := exists_effectiveRanges addrs modules
  have hfree : (∀ p ∈ ranges, (writeSpan address byteCount).overlaps p.2 = false) ↔
      ∀ x, (writeSpan address byteCount).Mem x → ¬ InProtected addrs modules "wide" x := by
    constructor
    · rintro hfree x hx ⟨ranges', hranges', p, hp, hin⟩
      obtain rfl := Except.ok.inj (hranges.symm.trans hranges')
      have hover := Span.overlaps_of_mem hx hin
      rw [hfree p hp] at hover
      exact absurd hover (by decide)
    · intro hfree p hp
      by_contra hover
      obtain ⟨x, hx, hin⟩ := (Span.overlaps_iff writeSpan_nonempty (hnonempty p hp)).mp
        (Bool.not_eq_false _ ▸ hover)
      exact hfree x hx ⟨ranges, hranges, p, hp, hin⟩
  rw [Accepts, check_eq_ok_iff]
  constructor
  · rintro ⟨allowed, ranges', hallowed, hranges', hor⟩
    obtain rfl := Except.ok.inj (hranges.symm.trans hranges')
    by_cases hsome : allowed.isSome = true
    · exact Or.inl ((isSome_iff_inAllowed hallowed).mp hsome)
    · refine Or.inr fun x hx hguarded => ?_
      rcases hguarded with ⟨e, he⟩ | hprotected
      · exact hsome (isSome_of_declared_error he hallowed)
      · exact hfree.mp (hor.resolve_left hsome) x hx hprotected
  · rintro (⟨x, hx, region, hmem, hin⟩ | hunguarded)
    · obtain ⟨label, hlabel⟩ := inAllowedSpan_of_overlaps hmem (Span.overlaps_of_mem hx hin)
      exact ⟨some label, ranges, hlabel, hranges, Or.inl rfl⟩
    · -- a write has a first byte, so the lookup of the declared regions does not raise
      have hfirst := hunguarded _ ⟨Int.le_refl _, writeSpan_nonempty⟩
      obtain ⟨allowed, hallowed⟩ :=
        exists_inAllowedSpan (fun he => hfirst (Or.inl he)) (writeSpan address byteCount)
      exact ⟨allowed, ranges, hallowed, hranges,
        Or.inr (hfree.mpr fun x hx hprotected => hunguarded x hx (Or.inr hprotected))⟩

/-- A write is rejected when it touches no allowed region and has a byte that is objected to. -/
theorem not_accepts_iff : ¬ Accepts addrs modules address byteCount ↔
    (∀ x, (writeSpan address byteCount).Mem x → ¬ InAllowed addrs x) ∧
      ∃ x, (writeSpan address byteCount).Mem x ∧ Guarded addrs modules x := by
  rw [accepts_iff]
  push Not
  rfl

/-! ## Mirrors -/

/-- A mirror range of the memory mapping and the primary range that it repeats. -/
structure Mirror where
  primary : ℤ
  mirror : ℤ
  size : ℤ

namespace Mirror

variable {m : Mirror}

/-- The primary addresses. -/
def range (m : Mirror) : Span := ⟨m.primary, m.primary + m.size⟩

/-- The address in the mirror that aliases a primary address. -/
def aliasOf (m : Mirror) (a : ℤ) : ℤ := m.mirror + (a - m.primary)

/-- The write stays inside the primary range. -/
def Holds (m : Mirror) (address byteCount : ℤ) : Prop :=
  ∀ x, (writeSpan address byteCount).Mem x → m.range.Mem x

/-- A byte of the primary range that the guard objects to has an alias that it objects to,
and no byte that a write can reach from there without touching an allowed region has an
alias in an allowed region. -/
def KeepsGuard (addrs : Addresses) (modules : Option (List Value)) (m : Mirror) : Prop :=
  ∀ x, m.range.Mem x → Guarded addrs modules x → ∀ y, m.range.Mem y →
    (∀ z, min x y ≤ z → z ≤ max x y → ¬ InAllowed addrs z) →
      Guarded addrs modules (m.aliasOf x) ∧ ¬ InAllowed addrs (m.aliasOf y)

/-- The alias of a write holds the aliases of its bytes. -/
theorem mem_writeSpan_alias :
    (writeSpan (m.aliasOf address) byteCount).Mem (m.aliasOf x) ↔
      (writeSpan address byteCount).Mem x := by
  simp only [Span.mem_iff, writeSpan, aliasOf]
  split <;> omega

theorem exists_alias (m : Mirror) (z : ℤ) : ∃ x, m.aliasOf x = z :=
  ⟨m.primary + (z - m.mirror), by simp only [aliasOf]; omega⟩

/-- The guard rejects the alias of a write by the aliases of its bytes. -/
theorem not_accepts_alias_iff : ¬ Accepts addrs modules (m.aliasOf address) byteCount ↔
    (∀ x, (writeSpan address byteCount).Mem x → ¬ InAllowed addrs (m.aliasOf x)) ∧
      ∃ x, (writeSpan address byteCount).Mem x ∧ Guarded addrs modules (m.aliasOf x) := by
  rw [not_accepts_iff]
  constructor
  · rintro ⟨hfree, z, hz, hguarded⟩
    obtain ⟨x, rfl⟩ := m.exists_alias z
    exact ⟨fun x hx => hfree _ (mem_writeSpan_alias.mpr hx), x, mem_writeSpan_alias.mp hz, hguarded⟩
  · rintro ⟨hfree, x, hx, hguarded⟩
    refine ⟨fun z hz => ?_, m.aliasOf x, mem_writeSpan_alias.mpr hx, hguarded⟩
    obtain ⟨x, rfl⟩ := m.exists_alias z
    exact hfree x (mem_writeSpan_alias.mp hz)

end Mirror

/-- What the guard accepts at an address of a mirror, it accepts at the primary address. -/
def NoBypass (addrs : Addresses) (modules : Option (List Value)) (mapping : List Mirror) : Prop :=
  ∀ m ∈ mapping, ∀ address byteCount, m.Holds address byteCount →
    Accepts addrs modules (m.aliasOf address) byteCount → Accepts addrs modules address byteCount

/-- The write of the bytes between two addresses, both included. -/
theorem mem_writeSpan_between {z : ℤ} :
    (writeSpan (min x y) (max x y - min x y + 1)).Mem z ↔ min x y ≤ z ∧ z ≤ max x y := by
  rw [writeSpan_of_pos (by omega), Span.mem_iff]
  simp only
  omega

/-- No write passes the guard through a mirror that would not pass it directly exactly when
every mirror keeps the guard. -/
theorem noBypass_iff {mapping : List Mirror} :
    NoBypass addrs modules mapping ↔ ∀ m ∈ mapping, m.KeepsGuard addrs modules := by
  refine forall₂_congr fun m _ => ?_
  constructor
  · intro hpass x hx hguarded y hy hfree
    -- any write between `x` and a byte reached from it is rejected, and so is its alias
    have hreject : ∀ y', m.range.Mem y' →
        (∀ z, min x y' ≤ z → z ≤ max x y' → ¬ InAllowed addrs z) →
        ¬ Accepts addrs modules (m.aliasOf (min x y')) (max x y' - min x y' + 1) := by
      intro y' hy' hfree'
      have hholds : m.Holds (min x y') (max x y' - min x y' + 1) := by
        intro z hz
        have hbetween := mem_writeSpan_between.mp hz
        obtain ⟨hxlo, hxhi⟩ := hx
        obtain ⟨hylo, hyhi⟩ := hy'
        exact ⟨by omega, by omega⟩
      refine fun haccepts => not_accepts_iff.mpr ⟨?_, x, ?_, hguarded⟩ (hpass _ _ hholds haccepts)
      · intro z hz
        have hbetween := mem_writeSpan_between.mp hz
        exact hfree' z hbetween.1 hbetween.2
      · exact mem_writeSpan_between.mpr ⟨min_le_left _ _, le_max_left _ _⟩
    constructor
    · have hself : ∀ z, min x x ≤ z → z ≤ max x x → ¬ InAllowed addrs z :=
        fun z hlo hhi => hfree z (by omega) (by omega)
      obtain ⟨-, z, hz, hin⟩ := Mirror.not_accepts_alias_iff.mp (hreject x hx hself)
      have hbetween := mem_writeSpan_between.mp hz
      obtain rfl : z = x := by omega
      exact hin
    · obtain ⟨hout, -⟩ := Mirror.not_accepts_alias_iff.mp (hreject y hy hfree)
      exact hout y (mem_writeSpan_between.mpr ⟨min_le_right _ _, le_max_right _ _⟩)
  · intro hkeeps address byteCount hholds haccepts
    by_contra hrejects
    obtain ⟨hfree, x, hx, hguarded⟩ := not_accepts_iff.mp hrejects
    have hall : ∀ y, (writeSpan address byteCount).Mem y →
        Guarded addrs modules (m.aliasOf x) ∧ ¬ InAllowed addrs (m.aliasOf y) := by
      intro y hy
      refine hkeeps x (hholds x hx) hguarded y (hholds y hy) fun z hlo hhi => hfree z ?_
      obtain ⟨hxlo, hxhi⟩ := hx
      obtain ⟨hylo, hyhi⟩ := hy
      exact ⟨by omega, by omega⟩
    exact Mirror.not_accepts_alias_iff.mpr
      ⟨fun y hy => (hall y hy).2, x, hx, (hall x hx).1⟩ haccepts

/-- User memory and its uncached mirror. -/
def uncachedUserMemory : Mirror := ⟨0x08800000, 0x48800000, 0x1800000⟩

/-- The game module alone. -/
def gameModule : List Value := [moduleEntry "top.prx" 0x08804000 0x347D00]

/-- The code of the game module is written through the uncached mirror. -/
theorem not_noBypass_uncached :
    ¬ NoBypass (some []) (some gameModule) [uncachedUserMemory] := by
  intro hpass
  have hholds : uncachedUserMemory.Holds 0x08804000 4 := by
    intro x hx
    rw [writeSpan_of_pos (by decide), Span.mem_iff] at hx
    simp only [uncachedUserMemory, Mirror.range, Span.mem_iff] at hx ⊢
    omega
  have hcode : codeSectionRange (some []) (some gameModule) =
      some ⟨0x08804000, 0x08B5BD00⟩ := rfl
  have hmirror : Accepts (some []) (some gameModule) (uncachedUserMemory.aliasOf 0x08804000) 4 :=
    (accepts_known_iff hcode).mpr ⟨none, rfl, Or.inr ⟨by decide, by decide⟩⟩
  have hdirect := hpass _ List.mem_cons_self _ _ hholds hmirror
  obtain ⟨allowed, hallowed, hor⟩ := (accepts_known_iff hcode).mp hdirect
  obtain rfl := Except.ok.inj ((show inAllowedSpan (some []) (writeSpan 0x08804000 4) =
    .ok none from rfl).symm.trans hallowed)
  rcases hor with hsome | ⟨-, hfree⟩
  · exact absurd hsome (by decide)
  · exact absurd hfree (by decide)

end Memory
