import Surtr.Eldr.Verify

/-!
# Composing an artifact (`forge/src/codegen.rs`)

The chunk's top-level code goes before the program's `Halt`, its functions behind
the program's; addresses into each of the four regions are moved by their own rule.
-/

namespace Surtr.Forge
open Surtr.Sindr Surtr.Lib Surtr.Eldr

/-- `CodegenError`, one constructor for each place of this function that builds
one; the spans are all empty. -/
inductive CodegenError where
  | baseHasNoHalt
  | chunkHasNoHalt
  | baseMismatch (table : String) (chunk base : Nat)
  | validation (error : BytecodeValidationError)
  | offsetExceedsU32 (label : String)
  | overflow (label : String)
  | baseExceedsU32 (table : String)
  | relocationOverflow (table : String)
  | chunkPcExceedsU32
  | functionTableInvariant (funIdx len : Nat)
  deriving DecidableEq

/-- The index map of `rebase_chunk_callable_template_ids` and
`rebase_chunk_function_ids`. The moved ids only get smaller. -/
def rebase (ids : List Nat) (baseLen idx : Nat) : Nat :=
  match ids.min? with
  | none => idx
  | some floor =>
    if floor ≤ baseLen then idx
    else if floor ≤ idx then idx - (floor - baseLen)
    else idx

def mapTemplateRef (f : Nat → Nat) : Opcode → Opcode
  | .loadCallableTemplateRef templateId => .loadCallableTemplateRef (f templateId)
  | op => op

def mapFunctionRef (f : Nat → Nat) : Opcode → Opcode
  | .loadFunctionRef funIdx => .loadFunctionRef (f funIdx)
  | .call funIdx arity spanStart spanEnd => .call (f funIdx) arity spanStart spanEnd
  | .setCallableDelegateFunction funIdx => .setCallableDelegateFunction (f funIdx)
  | op => op

def mapDirectTarget (f : Nat → Nat) : CallableTemplateDirectTarget → CallableTemplateDirectTarget
  | .function funIdx => .function (f funIdx)
  | .builtin id => .builtin id

def mapTemplateFunction (f : Nat → Nat) : CallableTemplateKind → CallableTemplateKind
  | .partialDirectCall target argSources => .partialDirectCall (mapDirectTarget f target) argSources
  | .injectDirectCall target boundArgCount =>
    .injectDirectCall (mapDirectTarget f target) boundArgCount
  | .composeDirect => .composeDirect

def rebaseChunkCallableTemplateIds (baseTemplateLen : Nat) (chunk : BytecodeChunk) :
    BytecodeChunk :=
  let f := rebase (chunk.callableTemplates.map (·.templateId)) baseTemplateLen
  { chunk with
    opcodes := chunk.opcodes.map (mapTemplateRef f)
    callableTemplates := chunk.callableTemplates.map fun template =>
      { template with templateId := f template.templateId } }

/-- `rebase_chunk_function_ids`, with the loop over the error constructors that
stands before it. -/
def rebaseChunkFunctionIds (baseFunctionLen : Nat) (chunk : BytecodeChunk) : BytecodeChunk :=
  let f := rebase (chunk.functions.map (·.funIdx)) baseFunctionLen
  { chunk with
    opcodes := chunk.opcodes.map (mapFunctionRef f)
    errorTemplates := chunk.errorTemplates.map fun definition =>
      { definition with constructorFunIdx := f definition.constructorFunIdx }
    callableTemplates := chunk.callableTemplates.map fun template =>
      { template with kind := mapTemplateFunction f template.kind }
    functions := chunk.functions.map fun entry => { entry with funIdx := f entry.funIdx }
    runtimeProcessSpecs := chunk.runtimeProcessSpecs.map fun spec =>
      { spec with
        init := { spec.init with funIdx := f spec.init.funIdx }
        handlers := spec.handlers.map fun handler =>
          { handler with funIdx := f handler.funIdx } } }

def rebaseChunk (base : Bytecode) (chunk : BytecodeChunk) : BytecodeChunk :=
  rebaseChunkFunctionIds base.functions.length
    (rebaseChunkCallableTemplateIds base.callableTemplates.length chunk)

def addU32 (label : String) (value add : Nat) : Except CodegenError Nat := do
  ensure (add < 2 ^ 32) (.offsetExceedsU32 label)
  ensure (value + add < 2 ^ 32) (.overflow label)
  .ok (value + add)

/-- Jump targets of the base from `insertionPc` on, the old `Halt` among them, make
room for the inserted code. -/
def shiftJump (insertionPc insertedLen addr : Nat) : Except CodegenError Nat :=
  if insertionPc ≤ addr then addU32 "base jump relocation" addr insertedLen else .ok addr

variable (insertionPc insertedLen : Nat)

def relocateBaseOp : Opcode → Except CodegenError Opcode
  | .jump addr => do .ok (.jump (← shiftJump insertionPc insertedLen addr))
  | .jumpIfFalse addr => do .ok (.jumpIfFalse (← shiftJump insertionPc insertedLen addr))
  | .jumpIfTrue addr => do .ok (.jumpIfTrue (← shiftJump insertionPc insertedLen addr))
  | .jumpIfLocalTagEq localIdx tagConstIdx addr => do
    .ok (.jumpIfLocalTagEq localIdx tagConstIdx (← shiftJump insertionPc insertedLen addr))
  | .jumpIfLocalTagNe localIdx tagConstIdx addr => do
    .ok (.jumpIfLocalTagNe localIdx tagConstIdx (← shiftJump insertionPc insertedLen addr))
  | op => .ok op

def relocateBaseOpsForInsert : List Opcode → Except CodegenError (List Opcode) :=
  mapOk (relocateBaseOp insertionPc insertedLen)

def shiftEntry (label : String) (insertionPc insertedLen pc : Nat) : Except CodegenError Nat :=
  if insertionPc < pc then addU32 label pc insertedLen else .ok pc

def relocateFunctionEntry (entry : FunctionEntry) :
    Except CodegenError FunctionEntry := do
  let entryPc ← shiftEntry "base function entry relocation" insertionPc insertedLen entry.entryPc
  let endPc ← shiftEntry "base function end relocation" insertionPc insertedLen entry.endPc
  .ok { entry with entryPc := entryPc, endPc := endPc }

structure Layout where
  baseHalt : Nat
  chunkHalt : Nat
  baseLen : Nat
  constBase : Nat
  errorTemplateBase : Nat
  dbgTemplateBase : Nat

namespace Layout

def finalHalt (layout : Layout) : Nat := layout.baseHalt + layout.chunkHalt

def baseFuncBase (layout : Layout) : Nat := layout.finalHalt + 1

def chunkFuncBase (layout : Layout) : Nat :=
  layout.baseFuncBase + (layout.baseLen - (layout.baseHalt + 1))

/-- Where `map_chunk_pc` sends an address of the chunk. -/
def chunkPc (layout : Layout) (pc : Nat) : Nat :=
  if pc ≤ layout.chunkHalt then layout.baseHalt + pc
  else layout.chunkFuncBase + (pc - (layout.chunkHalt + 1))

/-- Where an address of the base lies in the composed code; the old `Halt` is
where the chunk begins. -/
def basePc (layout : Layout) (pc : Nat) : Nat :=
  if pc ≤ layout.baseHalt then pc else pc + layout.chunkHalt

end Layout

variable (layout : Layout)

def mapChunkPc (pc : Nat) : Except CodegenError Nat :=
  if layout.chunkPc pc < 2 ^ 32 then .ok (layout.chunkPc pc) else .error .chunkPcExceedsU32

def checkedAdd (table : String) (index base : Nat) : Except CodegenError Nat :=
  if index + base < 2 ^ 32 then .ok (index + base) else .error (.relocationOverflow table)

def relocateChunkOp : Opcode → Except CodegenError Opcode
  | .jumpIfLocalTagEq localIdx tagConstIdx addr => do
    let addr ← mapChunkPc layout addr
    let tagConstIdx ← checkedAdd "const" tagConstIdx layout.constBase
    .ok (.jumpIfLocalTagEq localIdx tagConstIdx addr)
  | .jumpIfLocalTagNe localIdx tagConstIdx addr => do
    let addr ← mapChunkPc layout addr
    let tagConstIdx ← checkedAdd "const" tagConstIdx layout.constBase
    .ok (.jumpIfLocalTagNe localIdx tagConstIdx addr)
  | .jump addr => do .ok (.jump (← mapChunkPc layout addr))
  | .jumpIfFalse addr => do .ok (.jumpIfFalse (← mapChunkPc layout addr))
  | .jumpIfTrue addr => do .ok (.jumpIfTrue (← mapChunkPc layout addr))
  | .loadConst idx => do .ok (.loadConst (← checkedAdd "const" idx layout.constBase))
  | .storeConstLocal idx localIdx => do
    .ok (.storeConstLocal (← checkedAdd "const" idx layout.constBase) localIdx)
  | .eqLocalTag localIdx idx => do
    .ok (.eqLocalTag localIdx (← checkedAdd "const" idx layout.constBase))
  | .makeError templateId => do
    .ok (.makeError (← checkedAdd "error template" templateId layout.errorTemplateBase))
  | .dbg templateId argCount => do
    .ok (.dbg (← checkedAdd "dbg template" templateId layout.dbgTemplateBase) argCount)
  | op => .ok op

def relocateChunkOpsForArtifact (opcodes : List Opcode) :
    Except CodegenError (List Opcode) := do
  ensure (layout.constBase < 2 ^ 32) (.baseExceedsU32 "constant")
  ensure (layout.errorTemplateBase < 2 ^ 32) (.baseExceedsU32 "error template")
  ensure (layout.dbgTemplateBase < 2 ^ 32) (.baseExceedsU32 "dbg template")
  mapOk (relocateChunkOp layout) opcodes

def mapChunkEntry (entry : FunctionEntry) :
    Except CodegenError FunctionEntry := do
  let entryPc ← mapChunkPc layout entry.entryPc
  if entry.endPc = 0 then .ok { entry with entryPc := entryPc }
  else
    let endPc ← mapChunkPc layout entry.endPc
    .ok { entry with entryPc := entryPc, endPc := endPc }

def appendChunkFunctions (layout : Layout) :
    List FunctionEntry → List FunctionEntry → Except CodegenError (List FunctionEntry)
  | functions, [] => .ok functions
  | functions, entry :: rest => do
    let entry' ← mapChunkEntry layout entry
    ensure (entry'.funIdx = functions.length)
      (.functionTableInvariant entry'.funIdx functions.length)
    appendChunkFunctions layout (functions ++ [entry']) rest

/-- `extend_docs_unique` of the code generator, which compares name, kind and
signature. -/
def extendDocs (docs : List DocEntry) : List DocEntry → List DocEntry
  | [] => docs
  | doc :: rest =>
    extendDocs (if docs.any fun old => old.qualifiedName == doc.qualifiedName &&
        old.kind == doc.kind && old.signature == doc.signature
      then docs else docs ++ [doc]) rest

def extendRuntimeBootPlan (base chunk : RuntimeBootPlan) : RuntimeBootPlan :=
  { base with
    singletons := base.singletons ++ chunk.singletons
    standardOverrides := base.standardOverrides ++ chunk.standardOverrides
    handlerOverrides := base.handlerOverrides ++ chunk.handlerOverrides
    supervisorOverrides := base.supervisorOverrides ++ chunk.supervisorOverrides }

def checkBases (base : Bytecode) (chunk : BytecodeChunk) : Except CodegenError Unit := do
  ensure (chunk.constBase = base.constants.length)
    (.baseMismatch "constant" chunk.constBase base.constants.length)
  ensure (chunk.typeRegistryBase = base.typeRegistry.entries.length)
    (.baseMismatch "type registry" chunk.typeRegistryBase base.typeRegistry.entries.length)
  ensure (chunk.errorTemplateBase = base.errorTemplates.length)
    (.baseMismatch "error template" chunk.errorTemplateBase base.errorTemplates.length)
  ensure (chunk.dbgTemplateBase = base.dbgTemplates.length)
    (.baseMismatch "dbg template" chunk.dbgTemplateBase base.dbgTemplates.length)

def interleave (baseOps chunkOps : List Opcode) : List Opcode :=
  baseOps.take layout.baseHalt ++ chunkOps.take layout.chunkHalt ++ [.halt] ++
    baseOps.drop (layout.baseHalt + 1) ++ chunkOps.drop (layout.chunkHalt + 1)

def composeRebased (base : Bytecode) (chunk : BytecodeChunk) :
    Except CodegenError Bytecode := do
  let _ ← (validateChunkFunctionTable chunk.opcodes chunk.callableTemplates
    chunk.runtimeProcessSpecs chunk.functions base.functions.length false).mapError .validation
  (validateTypeRegistryAppend base.typeRegistry.entries chunk.typeEntries).mapError
    fun e => .validation (.typeRegistry e)
  let baseOps ← relocateBaseOpsForInsert layout.baseHalt layout.chunkHalt base.opcodes
  let chunkOps ← relocateChunkOpsForArtifact layout chunk.opcodes
  let baseFunctions ← mapOk (relocateFunctionEntry layout.baseHalt layout.chunkHalt) base.functions
  let functions ← appendChunkFunctions layout baseFunctions chunk.functions
  let registry ← (base.typeRegistry.tryExtend chunk.typeEntries).mapError
    fun e => CodegenError.validation (.typeRegistry e)
  .ok { base with
    opcodes := interleave layout baseOps chunkOps
    constants := base.constants ++ chunk.constants
    typeRegistry := registry
    errorTemplates := base.errorTemplates ++ chunk.errorTemplates
    dbgTemplates := base.dbgTemplates ++ chunk.dbgTemplates
    callableTemplates := base.callableTemplates ++ chunk.callableTemplates
    numLocals := min (base.numLocals + chunk.newLocals) (2 ^ 64 - 1)
    functions := functions
    sourceMap := none
    docs := extendDocs base.docs chunk.docs
    runtimeProcessSpecs := base.runtimeProcessSpecs ++ chunk.runtimeProcessSpecs
    runtimeBootPlan := extendRuntimeBootPlan base.runtimeBootPlan chunk.runtimeBootPlan }

def layoutOf (base : Bytecode) (baseHalt chunkHalt : Nat) : Layout where
  baseHalt := baseHalt
  chunkHalt := chunkHalt
  baseLen := base.opcodes.length
  constBase := base.constants.length
  errorTemplateBase := base.errorTemplates.length
  dbgTemplateBase := base.dbgTemplates.length

def composeBytecodeWithChunk (base : Bytecode) (chunk : BytecodeChunk) :
    Except CodegenError Bytecode :=
  match haltPos base.opcodes, haltPos chunk.opcodes with
  | none, _ => .error .baseHasNoHalt
  | some _, none => .error .chunkHasNoHalt
  | some baseHalt, some chunkHalt => do
    checkBases base chunk
    composeRebased (layoutOf base baseHalt chunkHalt) base (rebaseChunk base chunk)

end Surtr.Forge
