import PpssppDfx.Python.Value
import PpssppDfx.Semantics.Span

/-!
# The memory write guard

`write_memory` and `assemble` ask this guard before they touch emulated memory.
Kernel memory and the code section of the game module are protected; scratchpad,
VRAM and the data variables that `addresses.yaml` declares are legitimate targets
inside the protected spans. The code section comes from the session's module list
when it names the game module, and from a fallback extent otherwise.

Addresses are unbounded integers, as they are in the source.

## Main definitions

* `Memory.codeSectionRange` — the game module's extent in a module list
* `Memory.effectiveRanges` — the protected ranges of one check
* `Memory.inAllowedSpan` — the allowed region the guard finds for a write
* `Memory.checkProtectedAddress` — the guard
-/

set_option autoImplicit false

namespace Memory

open Python Semantics

/-- `config.addresses()`: the parsed root mapping, or `none` when reading it raises. -/
abbrev Addresses := Option Dict

/-- The exceptions that leave the guard. -/
inductive GuardError where
  | protectedAddress (message : String)
  | valueError (message : String)
  /-- A top-level key of `addresses.yaml` without an `endswith` for text. -/
  | keyNotText

/-- A labeled allowed region. It is never empty, so an overlap with it is a shared byte. -/
structure Region where
  span : Span
  label : String
  nonempty : span.lo < span.hi

def protectedRangeKernel : Span := ⟨0x00000000, 0x08800000⟩

/-- Legitimate memory that sits inside the kernel span. -/
def allowedInKernelSpan : List Region :=
  [⟨⟨0x00010000, 0x00014000⟩, "Scratchpad", by decide⟩,
   ⟨⟨0x04000000, 0x04800000⟩, "VRAM", by decide⟩]

def defaultTopPrxBase : ℤ := 0x08804000

def safetyMarginBytes : ℤ := 64 * 1024

def heuristicTopPrxSize : ℤ := 0x530000

def kernelRangeName : String := "kernel memory"

def codeSectionRangeName : String := "top.prx code section"

/-- `_to_int`: an integer or an integer literal; booleans and everything else are junk. -/
def toInt : Value → Option ℤ
  | .int n => some n
  | .str s => intLiteral s
  | _ => none

/-! ## Extents -/

/-- `_configured_base`: a positive integer under `top_base.ppsspp`. -/
def configuredBase (addrs : Addresses) : Option ℤ :=
  match addrs with
  | none => none
  | some root =>
    match root.get? "top_base" with
    | some (.dict top) =>
      match Dict.get? top "ppsspp" with
      | some (.int base) => if base > 0 then some base else none
      | _ => none
    | _ => none

/-- `_configured_module_base`: the game module's load base. -/
def configuredModuleBase (addrs : Addresses) : ℤ :=
  (configuredBase addrs).getD defaultTopPrxBase

/-- What a module-list entry contributes: its name, start and end. -/
structure ModuleRange where
  name : String
  start : ℤ
  stop : ℤ

/-- The extent of one entry if it is usable and belongs to the game module. -/
def moduleRange (base : ℤ) (entry : Value) : Option ModuleRange :=
  match entry with
  | .dict fields =>
    match (Dict.get? fields "address").bind toInt, (Dict.get? fields "size").bind toInt with
    | some addr, some size =>
      if size ≤ 0 then none
      else
        let name := (((Dict.get? fields "name").getD .none).orElse (.str "")).text
        if addr ≠ base ∧ !lowerContains name "top" then none
        else some ⟨name, addr, addr + size⟩
    | _, _ => none
  | _ => none

/-- Keep the first of the largest extents. -/
def largerRange (best : Option ModuleRange) (candidate : ModuleRange) : Option ModuleRange :=
  match best with
  | none => some candidate
  | some b =>
    if candidate.stop - candidate.start > b.stop - b.start then some candidate else some b

/-- `code_section_range`: the game module's extent in the session's module list. -/
def codeSectionRange (addrs : Addresses) (modules : Option (List Value)) : Option Span :=
  let base := configuredModuleBase addrs
  let best := ((modules.getD []).filterMap (moduleRange base)).foldl largerRange none
  best.map fun b => ⟨b.start, b.stop + safetyMarginBytes⟩

/-- `narrow_code_extent`: what is code without consulting a session. -/
def narrowCodeExtent (addrs : Addresses) : Span :=
  ⟨configuredModuleBase addrs, configuredModuleBase addrs + safetyMarginBytes⟩

/-- `conservative_code_extent`: the fail-closed extent. -/
def conservativeCodeExtent (addrs : Addresses) : Span :=
  ⟨configuredModuleBase addrs, configuredModuleBase addrs + heuristicTopPrxSize⟩

/-- `_code_extent`: the extent of this check, or the requested fallback. -/
def codeExtent (addrs : Addresses) (modules : Option (List Value)) (extentWhenUnknown : String) :
    Except GuardError Span :=
  match codeSectionRange addrs modules with
  | some code => .ok code
  | none =>
    if extentWhenUnknown = "base" then .ok (narrowCodeExtent addrs)
    else if extentWhenUnknown = "wide" then .ok (conservativeCodeExtent addrs)
    else .error (.valueError
      ("extent_when_unknown must be 'wide' or 'base', got " ++ strRepr extentWhenUnknown))

/-- `effective_ranges`: the protected ranges of one check, by name. -/
def effectiveRanges (addrs : Addresses) (modules : Option (List Value))
    (extentWhenUnknown : String) : Except GuardError (List (String × Span)) :=
  (codeExtent addrs modules extentWhenUnknown).map fun code =>
    [(kernelRangeName, protectedRangeKernel), (codeSectionRangeName, code)]

/-! ## Allowed regions -/

/-- The region of one `state_probes` entry. -/
def probeRegion (name spec : Value) : Option Region :=
  match spec with
  | .dict fields =>
    ((Dict.get? fields "address").bind toInt).map fun addr =>
      -- A missing, unreadable or zero size counts as four bytes.
      let size := match (Dict.get? fields "size").bind toInt with
        | some n => if n = 0 then 4 else n
        | none => 4
      ⟨⟨addr, addr + max size 1⟩, "declared probe " ++ name.text, by simp only; omega⟩
  | _ => none

/-- The region of one top-level `*_addr` scalar. -/
def scalarRegion (key : String) (value : Value) : Option Region :=
  if !endsWith key "_addr" || value.isContainer then none
  else (toInt value).map fun addr =>
    ⟨⟨addr, addr + 4⟩, "declared " ++ key, by simp only; omega⟩

/-- The regions of the top-level scalars; a key that is not text ends the scan with an error. -/
def scalarRegions : Dict → Except GuardError (List Region)
  | [] => .ok []
  | (.str key, value) :: rest =>
    (scalarRegions rest).map fun regions => (scalarRegion key value).toList ++ regions
  | _ :: _ => .error .keyNotText

/-- `_declared_data_ranges`: data addresses that the project declares. -/
def declaredDataRanges (addrs : Addresses) : Except GuardError (List Region) :=
  match addrs with
  | none => .ok []
  | some root =>
    let probes := match root.get? "state_probes" with
      | some (.dict entries) => entries.filterMap fun (name, spec) => probeRegion name spec
      | _ => []
    (scalarRegions root).map fun scalars => probes ++ scalars

/-- The label of the first region that overlaps the write. -/
def firstOverlapping (write : Span) (regions : List Region) : Option String :=
  (regions.find? fun region => write.overlaps region.span).map fun region => region.label

/-- `_in_allowed_span`: the fixed regions first, then the declared ones. -/
def inAllowedSpan (addrs : Addresses) (write : Span) : Except GuardError (Option String) :=
  match firstOverlapping write allowedInKernelSpan with
  | some label => .ok (some label)
  | none => (declaredDataRanges addrs).map (firstOverlapping write)

/-! ## The guard -/

/-- The message of a rejected write. -/
def protectedMessage (write : Span) (name : String) (range : Span) (hint : String) : String :=
  "address range 0x" ++ hex08 write.lo ++ "-0x" ++ hex08 write.hi ++ " overlaps protected " ++
  name ++ " (0x" ++ hex08 range.lo ++ "-0x" ++ hex08 range.hi ++ "). Writing to this range can " ++
  "crash PPSSPP (JIT cache invalidation). Set force=True to override." ++ hint

/-- Why the extent looks wide when the module list names no usable game module. -/
def fallbackHint : String :=
  " This is the fail-closed fallback extent because the session's module list was unavailable;" ++
  " pass force=True to override, or declare the address in addresses.yaml."

/-- The scan over the protected ranges: the first one that the write overlaps rejects
it, unless an allowed region was found. -/
def scanRanges (write : Span) (allowed : Option String) (hint : String → String) :
    List (String × Span) → Except GuardError Unit
  | [] => .ok ()
  | (name, range) :: rest =>
    if !write.overlaps range then scanRanges write allowed hint rest
    else if allowed.isSome then scanRanges write allowed hint rest
    else .error (.protectedAddress (protectedMessage write name range (hint name)))

/-- The bytes of a write; a count of zero or less checks one byte. -/
def writeSpan (address byteCount : ℤ) : Span :=
  ⟨address, if byteCount > 0 then address + byteCount else address + 1⟩

/-- `check_protected_address`. -/
def checkProtectedAddress (addrs : Addresses) (address byteCount : ℤ) (force : Bool)
    (modules : Option (List Value)) (extentWhenUnknown : String) : Except GuardError Unit :=
  if force then .ok ()
  else do
    let write := writeSpan address byteCount
    let allowed ← inAllowedSpan addrs write
    let ranges ← effectiveRanges addrs modules extentWhenUnknown
    let hint := fun name =>
      if name = codeSectionRangeName ∧ (codeSectionRange addrs modules).isNone then fallbackHint
      else ""
    scanRanges write allowed hint ranges

/-- `check_protected_address_static`: the pre-flight pass, without a module list. -/
def checkProtectedAddressStatic (addrs : Addresses) (address byteCount : ℤ) (force : Bool) :
    Except GuardError Unit :=
  checkProtectedAddress addrs address byteCount force none "base"

end Memory
