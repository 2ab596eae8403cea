import Surtr.Eldr.Machine

/-!
# Linking a chunk (`eldr/src/vm.rs`)

The opcodes of a chunk index its own constants, error templates and code from
zero; function references and callable-template ids are global.
-/

namespace Surtr.Eldr
open Surtr.Sindr Surtr.Lib

variable {bases : LinkBases} {ops ops' : List Opcode}

structure LinkBases where
  code : Nat
  const : Nat
  errorTemplate : Nat
  dbgTemplate : Nat

def linkBases (bytecode : Bytecode) : LinkBases where
  code := bytecode.opcodes.length
  const := bytecode.constants.length
  errorTemplate := bytecode.errorTemplates.length
  dbgTemplate := bytecode.dbgTemplates.length

def relocate (table item : String) (index base : Nat) : Except LinkError Nat :=
  if index + base < 2 ^ 32 then .ok (index + base)
  else .error (.relocationOverflow table item index base)

theorem relocate_ok {table item : String} {index base result : Nat}
    (h : relocate table item index base = .ok result) : result = index + base := by
  unfold relocate at h
  split at h <;> simp_all

def relocateOpcode (bases : LinkBases) : Opcode → Except LinkError Opcode
  | .jumpIfLocalTagEq localIdx tagConstIdx addr => do
    let tagConstIdx ← relocate "Const" "index" tagConstIdx bases.const
    let addr ← relocate "Jump" "target" addr bases.code
    .ok (.jumpIfLocalTagEq localIdx tagConstIdx addr)
  | .jumpIfLocalTagNe localIdx tagConstIdx addr => do
    let tagConstIdx ← relocate "Const" "index" tagConstIdx bases.const
    let addr ← relocate "Jump" "target" addr bases.code
    .ok (.jumpIfLocalTagNe localIdx tagConstIdx addr)
  | .jump addr => do .ok (.jump (← relocate "Jump" "target" addr bases.code))
  | .jumpIfFalse addr => do .ok (.jumpIfFalse (← relocate "Jump" "target" addr bases.code))
  | .jumpIfTrue addr => do .ok (.jumpIfTrue (← relocate "Jump" "target" addr bases.code))
  | .loadConst idx => do .ok (.loadConst (← relocate "Const" "index" idx bases.const))
  | .storeConstLocal idx localIdx => do
    .ok (.storeConstLocal (← relocate "Const" "index" idx bases.const) localIdx)
  | .eqLocalTag localIdx idx => do
    .ok (.eqLocalTag localIdx (← relocate "Const" "index" idx bases.const))
  | .makeError templateId => do
    .ok (.makeError (← relocate "Error template" "id" templateId bases.errorTemplate))
  | .dbg templateId argCount => do
    .ok (.dbg (← relocate "Dbg template" "id" templateId bases.dbgTemplate) argCount)
  | op => .ok op

def checkBase (table : String) (base : Nat) : Except LinkError Unit :=
  ensure (base < 2 ^ 32) (.baseTooLarge table base)

def relocateOpcodes (bases : LinkBases) : List Opcode → Except LinkError (List Opcode)
  | [] => .ok []
  | op :: rest => do
    let op' ← relocateOpcode bases op
    let rest' ← relocateOpcodes bases rest
    .ok (op' :: rest')

def relocateChunkIndices (bases : LinkBases) (opcodes : List Opcode) :
    Except LinkError (List Opcode) := do
  checkBase "Code" bases.code
  checkBase "Constant" bases.const
  checkBase "Error template" bases.errorTemplate
  checkBase "Dbg template" bases.dbgTemplate
  relocateOpcodes bases opcodes

structure Relocated (bases : LinkBases) (op op' : Opcode) : Prop where
  const : constRef op' = (constRef op).map (· + bases.const)
  jump : jumpRef op' = (jumpRef op).map (· + bases.code)
  errorTemplate : errorTemplateRef op' = (errorTemplateRef op).map (· + bases.errorTemplate)
  dbg : dbgRef op' = (dbgRef op).map (· + bases.dbgTemplate)
  builtin : builtinRef op' = builtinRef op
  delegate : delegateRef op' = delegateRef op
  callableTemplate : callableTemplateRef op' = callableTemplateRef op
  function : op'.functionRef = op.functionRef
  returnLike : op'.isReturnLike = op.isReturnLike
  halt : op'.isHalt = op.isHalt

theorem relocateOpcode_ok {op op' : Opcode}
    (h : relocateOpcode bases op = .ok op') : Relocated bases op op' := by
  cases op
  case jumpIfLocalTagEq | jumpIfLocalTagNe =>
    simp only [relocateOpcode, bind_eq_ok, Except.ok.injEq] at h
    obtain ⟨c, hc, a, ha, rfl⟩ := h
    have hc' := relocate_ok hc
    have ha' := relocate_ok ha
    subst hc' ha'
    constructor <;> rfl
  case jump | jumpIfFalse | jumpIfTrue | loadConst | storeConstLocal | eqLocalTag | makeError |
    dbg =>
    simp only [relocateOpcode, bind_eq_ok, Except.ok.injEq] at h
    obtain ⟨i, hi, rfl⟩ := h
    have hi' := relocate_ok hi
    subst hi'
    constructor <;> rfl
  all_goals
    cases h
    constructor <;> rfl

theorem relocateOpcodes_length
    (h : relocateOpcodes bases ops = .ok ops') : ops'.length = ops.length := by
  induction ops generalizing ops' with
  | nil =>
    cases h
    rfl
  | cons op rest ih =>
    simp only [relocateOpcodes, bind_eq_ok, Except.ok.injEq] at h
    obtain ⟨op', -, rest', hrest, rfl⟩ := h
    have hlen := ih hrest
    simp only [List.length_cons, hlen]

theorem relocateOpcodes_get (h : relocateOpcodes bases ops = .ok ops') {i : Nat} {op' : Opcode}
    (hget : ops'[i]? = some op') : ∃ op, ops[i]? = some op ∧ Relocated bases op op' := by
  induction ops generalizing ops' i with
  | nil =>
    cases h
    simp at hget
  | cons op rest ih =>
    simp only [relocateOpcodes, bind_eq_ok, Except.ok.injEq] at h
    obtain ⟨head, hhead, tail, htail, rfl⟩ := h
    cases i with
    | zero =>
      simp only [List.getElem?_cons_zero, Option.some.injEq] at hget
      subst hget
      exact ⟨op, rfl, relocateOpcode_ok hhead⟩
    | succ i =>
      exact ih htail hget

theorem relocateChunkIndices_ok (h : relocateChunkIndices bases ops = .ok ops') :
    bases.code < 2 ^ 32 ∧ relocateOpcodes bases ops = .ok ops' := by
  simp only [relocateChunkIndices, bind_unit_eq_ok, checkBase, ensure_eq_ok] at h
  exact ⟨h.1, h.2.2.2.2⟩

def extendDocsUnique (docs : List DocEntry) : List DocEntry → List DocEntry
  | [] => docs
  | doc :: rest => extendDocsUnique (if doc ∈ docs then docs else docs ++ [doc]) rest

theorem extendDocsUnique_extends (docs more : List DocEntry) :
    ∃ added, extendDocsUnique docs more = docs ++ added := by
  induction more generalizing docs with
  | nil => exact ⟨[], by simp [extendDocsUnique]⟩
  | cons doc rest ih =>
    obtain ⟨added, hadded⟩ := ih (if doc ∈ docs then docs else docs ++ [doc])
    rw [extendDocsUnique, hadded]
    split
    · exact ⟨added, rfl⟩
    · exact ⟨doc :: added, by simp⟩

def relocateSourceEntries (codeBase : Nat) :
    List OpcodeSource → Except LinkError (List OpcodeSource)
  | [] => .ok []
  | entry :: rest => do
    ensure (entry.opcodeIndex + codeBase < 2 ^ 32) .sourceMapOverflow
    let rest' ← relocateSourceEntries codeBase rest
    .ok ({ entry with opcodeIndex := entry.opcodeIndex + codeBase } :: rest')

def relocateAndExtendSourceMap (existing chunkMap : Option SourceMap) (codeBase : Nat) :
    Except LinkError (Option SourceMap) :=
  match chunkMap with
  | none => .ok existing
  | some map => do
    ensure (codeBase < 2 ^ 32) .opcodeCountExceedsU32
    let entries ← relocateSourceEntries codeBase map.entries
    match existing with
    | some old => .ok (some ⟨old.entries ++ entries⟩)
    | none => .ok (some ⟨entries⟩)

def relocateEntryPc (codeBase entryPc : Nat) : Nat := (entryPc + codeBase % 2 ^ 32) % 2 ^ 32

/-- One round of the function loop of `execute_chunk`: append or replace, never
leave a hole. -/
def installFunction (codeBase : Nat) (functions : List FunctionEntry) (entry : FunctionEntry) :
    Except LinkError (List FunctionEntry) :=
  let entry' := { entry with entryPc := relocateEntryPc codeBase entry.entryPc }
  if entry.funIdx = functions.length then .ok (functions ++ [entry'])
  else if entry.funIdx < functions.length then .ok (functions.set entry.funIdx entry')
  else .error (.functionGap entry.funIdx functions.length)

def installFunctions (codeBase : Nat) :
    List FunctionEntry → List FunctionEntry → Except LinkError (List FunctionEntry)
  | functions, [] => .ok functions
  | functions, entry :: rest => do
    let functions' ← installFunction codeBase functions entry
    installFunctions codeBase functions' rest

structure Vm (W K : Type) where
  bytecode : Bytecode
  machine : Machine W K

/-- The operations of the VM that linking and rolling back use and that only
read the image. -/
structure Engine (W K : Type) where
  ensureRootSupervisorBooted : Bytecode → Machine W K → Except RuntimeError Unit × Machine W K
  registerSpecs : Bytecode → Bool → W → W
  reopenBoot : Bytecode → W → W
  runTopLevel : Bytecode → Nat → Machine W K → Except RuntimeError Unit × Machine W K
  restoreWorld : W → W → W
  sweepStoppedIdentities : W → W

section Install
variable {W K : Type} (engine : Engine W K)

abbrev VmEff (W K α : Type) := Eff RuntimeError (Vm W K) α

def updateBytecode (f : Bytecode → Bytecode) : VmEff W K Unit :=
  Eff.update fun vm => { vm with bytecode := f vm.bytecode }

def updateWorld (f : Bytecode → W → W) : VmEff W K Unit :=
  Eff.update fun vm =>
    { vm with machine := { vm.machine with world := f vm.bytecode vm.machine.world } }

def bootRootSupervisor : VmEff W K Unit :=
  Eff.step fun vm =>
    let booted := engine.ensureRootSupervisorBooted vm.bytecode vm.machine
    (booted.1, { vm with machine := booted.2 })

def checkChunkBases (bytecode : Bytecode) (chunk : BytecodeChunk) : Except VerifyError Unit := do
  ensure (chunk.constBase = bytecode.constants.length)
    (.constBaseMismatch chunk.constBase bytecode.constants.length)
  ensure (chunk.errorTemplateBase = bytecode.errorTemplates.length)
    (.errorTemplateBaseMismatch chunk.errorTemplateBase bytecode.errorTemplates.length)
  ensure (chunk.typeRegistryBase = bytecode.typeRegistry.entries.length)
    (.typeRegistryBaseMismatch chunk.typeRegistryBase bytecode.typeRegistry.entries.length)
  ensure (chunk.dbgTemplateBase = bytecode.dbgTemplates.length)
    (.dbgTemplateBaseMismatch chunk.dbgTemplateBase bytecode.dbgTemplates.length)

variable (chunk : BytecodeChunk)

/-- `execute_chunk` up to the point where the dbg templates are appended: the
checks, the relocation, the constants and the type entries. -/
def prepareChunk : VmEff W K (List Opcode) := do
  bootRootSupervisor engine
  let bytecode ← Eff.reads Vm.bytecode
  Eff.liftExcept ((checkChunkBases bytecode chunk).mapError .verify)
  let opcodes ← Eff.liftExcept
    ((relocateChunkIndices (linkBases bytecode) chunk.opcodes).mapError .link)
  updateBytecode fun bc => { bc with constants := bc.constants ++ chunk.constants }
  let registry ← Eff.liftExcept
    ((bytecode.typeRegistry.tryExtend chunk.typeEntries).mapError fun e =>
      .verify (.typeRegistry e))
  updateBytecode fun bc => { bc with typeRegistry := registry }
  return opcodes

def appendTables (bc : Bytecode) : Bytecode :=
  { bc with
    errorTemplates := bc.errorTemplates ++ chunk.errorTemplates
    dbgTemplates := bc.dbgTemplates ++ chunk.dbgTemplates
    callableTemplates := bc.callableTemplates ++ chunk.callableTemplates
    docs := extendDocsUnique bc.docs chunk.docs
    runtimeProcessSpecs := bc.runtimeProcessSpecs ++ chunk.runtimeProcessSpecs
    runtimeBootPlan := { bc.runtimeBootPlan with
      singletons := bc.runtimeBootPlan.singletons ++ chunk.runtimeBootPlan.singletons
      standardOverrides :=
        bc.runtimeBootPlan.standardOverrides ++ chunk.runtimeBootPlan.standardOverrides
      handlerOverrides :=
        bc.runtimeBootPlan.handlerOverrides ++ chunk.runtimeBootPlan.handlerOverrides } }

def installFunctionEntries (codeBase : Nat) : List FunctionEntry → VmEff W K Unit
  | [] => pure ()
  | entry :: rest => do
    let bytecode ← Eff.reads Vm.bytecode
    let functions ← Eff.liftExcept
      ((installFunction codeBase bytecode.functions entry).mapError .link)
    updateBytecode fun bc => { bc with functions := functions }
    installFunctionEntries codeBase rest

def installChunk (codeBase : Nat) (opcodes : List Opcode) :
    VmEff W K Unit := do
  updateBytecode (appendTables chunk)
  updateWorld fun bc => engine.registerSpecs bc !chunk.runtimeProcessSpecs.isEmpty
  updateBytecode fun bc => { bc with opcodes := bc.opcodes ++ opcodes }
  let bytecode ← Eff.reads Vm.bytecode
  let sourceMap ← Eff.liftExcept
    ((relocateAndExtendSourceMap bytecode.sourceMap chunk.sourceMap codeBase).mapError .link)
  updateBytecode fun bc => { bc with sourceMap := sourceMap }
  installFunctionEntries codeBase chunk.functions

def linkChunk : VmEff W K (List Opcode) := do
  let codeBase ← Eff.reads fun vm => vm.bytecode.opcodes.length
  let opcodes ← prepareChunk engine chunk
  installChunk engine chunk codeBase opcodes
  return opcodes

def extendRootLocals (newLocals : Nat) : List CallFrame → List CallFrame
  | [] => []
  | [frame] => [{ frame with locals := frame.locals ++ List.replicate newLocals .unit }]
  | frame :: rest => frame :: extendRootLocals newLocals rest

def runChunk (codeBase : Nat) : VmEff W K Value := do
  Eff.step fun vm =>
    let ran := engine.runTopLevel vm.bytecode codeBase vm.machine
    (ran.1, { vm with machine := ran.2 })
  let result ← Eff.reads fun vm => vm.machine.stack.headD .unit
  Eff.update fun vm => { vm with machine := { vm.machine with stack := [] } }
  return result

def runLinked (codeBase : Nat) : VmEff W K Value := do
  Eff.update fun vm => { vm with machine :=
    { vm.machine with frames := extendRootLocals chunk.newLocals vm.machine.frames } }
  updateWorld engine.reopenBoot
  bootRootSupervisor engine
  runChunk engine codeBase

def executeChunk : VmEff W K Value := do
  let codeBase ← Eff.reads fun vm => vm.bytecode.opcodes.length
  let _ ← linkChunk engine chunk
  runLinked engine chunk codeBase

end Install

end Surtr.Eldr
