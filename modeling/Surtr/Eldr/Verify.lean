import Surtr.Eldr.Error
import Mathlib.Tactic.MkIffOfInductiveProp

/-!
# The bytecode verifier (`eldr/src/vm.rs`)

What acceptance of an image establishes is `ProgramOk`.
-/

namespace Surtr.Eldr
open Surtr.Sindr Surtr.Lib List

def constRef : Opcode → Option Nat
  | .loadConst idx => some idx
  | .storeConstLocal idx _ => some idx
  | .eqLocalTag _ idx => some idx
  | .jumpIfLocalTagEq _ idx _ => some idx
  | .jumpIfLocalTagNe _ idx _ => some idx
  | _ => none

def jumpRef : Opcode → Option Nat
  | .jump addr => some addr
  | .jumpIfFalse addr => some addr
  | .jumpIfTrue addr => some addr
  | .jumpIfLocalTagEq _ _ addr => some addr
  | .jumpIfLocalTagNe _ _ addr => some addr
  | _ => none

def errorTemplateRef : Opcode → Option Nat
  | .makeError templateId => some templateId
  | _ => none

def builtinRef : Opcode → Option Nat
  | .loadBuiltinRef builtinId => some builtinId
  | .callBuiltin builtinId _ _ _ => some builtinId
  | _ => none

def delegateRef : Opcode → Option Nat
  | .setCallableDelegateFunction funIdx => some funIdx
  | _ => none

def callableTemplateRef : Opcode → Option Nat
  | .loadCallableTemplateRef templateId => some templateId
  | _ => none

def dbgRef : Opcode → Option Nat
  | .dbg templateId _ => some templateId
  | _ => none

def verifyErrorKindConstants (constants : List Constant) (before after : List ErrTemplate) :
    Except VerifyError Unit :=
  checkAll (fun constant => match constant with
    | .errorKind kind =>
      ensure ((before ++ after).any (fun template => template.kind == kind))
        (.unknownErrorKind kind)
    | _ => .ok ()) constants

theorem verifyErrorKindConstants_ok {constants : List Constant} {before after : List ErrTemplate} :
    verifyErrorKindConstants constants before after = .ok () ↔
      ∀ kind, .errorKind kind ∈ constants → ∃ t ∈ before ++ after, t.kind = kind := by
  rw [verifyErrorKindConstants, checkAll_ok_iff]
  constructor
  · intro h kind hmem
    have hbody := h _ hmem
    simpa only [ensure_eq_ok, any_eq_true, beq_iff_eq] using hbody
  · intro h constant hmem
    cases constant with
    | errorKind kind =>
      have hk := h kind hmem
      simpa only [ensure_eq_ok, any_eq_true, beq_iff_eq] using hk
    | _ => rfl

def verifySourceMapEntry (opcodeLen : Nat) (chunk : Bool) (seen : List OpcodeSource)
    (entry : OpcodeSource) : Except VerifyError Unit := do
  ensure (entry.opcodeIndex < opcodeLen) (.sourceMapOutOfBounds chunk entry.opcodeIndex)
  ensure (entry.opcodeIndex ∉ seen.map (·.opcodeIndex))
    (.sourceMapDuplicate chunk entry.opcodeIndex)

def verifySourceMapEntries (sourceMap : Option SourceMap) (opcodeLen : Nat) (chunk : Bool) :
    Except VerifyError Unit :=
  match sourceMap with
  | none => .ok ()
  | some map => checkSeen (verifySourceMapEntry opcodeLen chunk) [] map.entries

def SourceMapOk (opcodeLen : Nat) (entries : List OpcodeSource) : Prop :=
  (∀ entry ∈ entries, entry.opcodeIndex < opcodeLen) ∧ (entries.map (·.opcodeIndex)).Nodup

theorem checkSourceMap_ok {opcodeLen : Nat} {chunk : Bool} {entries : List OpcodeSource} :
    checkSeen (verifySourceMapEntry opcodeLen chunk) [] entries = .ok () ↔
      SourceMapOk opcodeLen entries := by
  constructor
  · intro h
    refine ⟨?_, ?_⟩
    · intro entry hmem
      obtain ⟨before, after, rfl⟩ := append_of_mem hmem
      have hbody := checkSeen_ok_iff.mp h before entry after rfl
      rw [verifySourceMapEntry, bind_unit_eq_ok, ensure_eq_ok] at hbody
      exact hbody.1
    · apply nodup_of_checkSeen _ h
      intro seen entry hbody
      rw [verifySourceMapEntry, bind_unit_eq_ok, ensure_eq_ok, ensure_eq_ok] at hbody
      exact hbody.2
  · rintro ⟨hbound, hnodup⟩
    rw [checkSeen_ok_iff]
    intro before entry after heq
    rw [verifySourceMapEntry, bind_unit_eq_ok, ensure_eq_ok, ensure_eq_ok, nil_append]
    refine ⟨hbound entry (by simp [heq]), ?_⟩
    rw [heq, map_append, nodup_append] at hnodup
    intro hmem
    exact hnodup.2.2 _ hmem _ (by simp) rfl

theorem verifySourceMapEntries_ok {sourceMap : Option SourceMap} {opcodeLen : Nat} {chunk : Bool} :
    verifySourceMapEntries sourceMap opcodeLen chunk = .ok () ↔
      ∀ map, sourceMap = some map → SourceMapOk opcodeLen map.entries := by
  cases sourceMap with
  | none => simp [verifySourceMapEntries]
  | some map => simp [verifySourceMapEntries, checkSourceMap_ok]

section Program
variable (metas : List BuiltinMeta)

def verifyOpcode (bytecode : Bytecode) (haltPos idx : Nat) (op : Opcode) :
    Except VerifyError Unit :=
  match op with
  | .jumpIfLocalTagEq _ tagConstIdx addr | .jumpIfLocalTagNe _ tagConstIdx addr => do
    ensure (tagConstIdx < bytecode.constants.length) (.constIndex false tagConstIdx)
    ensure (addr < bytecode.opcodes.length) (.jumpTarget false addr)
  | .jump addr | .jumpIfFalse addr | .jumpIfTrue addr =>
    ensure (addr < bytecode.opcodes.length) (.jumpTarget false addr)
  | .loadConst idx | .storeConstLocal idx _ | .eqLocalTag _ idx =>
    ensure (idx < bytecode.constants.length) (.constIndex false idx)
  | .makeError templateId =>
    ensure (templateId < bytecode.errorTemplates.length) (.errorTemplate false templateId)
  | .loadBuiltinRef builtinId | .callBuiltin builtinId _ _ _ =>
    ensure ((builtinMetaById metas builtinId).isSome) (.unknownBuiltinRef builtinId)
  | .setCallableDelegateFunction funIdx =>
    ensure (bytecode.functions.any (fun entry => entry.funIdx == funIdx))
      (.unknownDelegateFunction funIdx)
  | .loadCallableTemplateRef templateId =>
    ensure (bytecode.callableTemplates.any (fun template => template.templateId == templateId))
      (.unknownCallableTemplateRef templateId)
  | .dbg templateId _ =>
    ensure (bytecode.dbgTemplates.any (fun template => template.id == templateId))
      (.unknownDbgTemplateRef templateId)
  | .ret | .tailCallClosure .. => ensure (haltPos < idx) .returnAtTopLevel
  | _ => .ok ()

def verifyProgram (bytecode : Bytecode) : Except VerifyError Unit := do
  (validateTypeRegistryAppend [] bytecode.typeRegistry.entries).mapError .typeRegistry
  verifyErrorKindConstants bytecode.constants bytecode.errorTemplates []
  verifySourceMapEntries bytecode.sourceMap bytecode.opcodes.length false
  (validateProgramFunctionTable bytecode.opcodes bytecode.callableTemplates
    bytecode.runtimeProcessSpecs bytecode.functions).mapError .functionTable
  match haltPos bytecode.opcodes with
  | some pos => checkIdx (verifyOpcode metas bytecode pos) bytecode.opcodes
  | none =>
    if bytecode.opcodes.any Opcode.isReturn then .error .returnAtTopLevel
    else .error (.missingHalt false)

/-- Every reference of `op` is followed inside `bytecode`. The last three
tables are searched by id, the others are indexed. -/
@[mk_iff]
structure OpcodeRefsOk (bytecode : Bytecode) (op : Opcode) : Prop where
  const : ∀ idx, constRef op = some idx → idx < bytecode.constants.length
  jump : ∀ addr, jumpRef op = some addr → addr < bytecode.opcodes.length
  errorTemplate : ∀ t, errorTemplateRef op = some t → t < bytecode.errorTemplates.length
  builtin : ∀ id, builtinRef op = some id → (builtinMetaById metas id).isSome
  delegate : ∀ f, delegateRef op = some f → ∃ entry ∈ bytecode.functions, entry.funIdx = f
  callableTemplate : ∀ t, callableTemplateRef op = some t →
    ∃ template ∈ bytecode.callableTemplates, template.templateId = t
  dbg : ∀ t, dbgRef op = some t → ∃ template ∈ bytecode.dbgTemplates, template.id = t

variable {bytecode : Bytecode}

theorem verifyOpcode_ok {pos idx : Nat} {op : Opcode} :
    verifyOpcode metas bytecode pos idx op = .ok () ↔
      OpcodeRefsOk metas bytecode op ∧ (op.isReturnLike → pos < idx) := by
  rw [opcodeRefsOk_iff]
  cases op <;>
    simp [verifyOpcode, constRef, jumpRef, errorTemplateRef, builtinRef, delegateRef,
      callableTemplateRef, dbgRef, Opcode.isReturnLike, bind_unit_eq_ok]

/-- What `verify_program` establishes of an image; the registry is valid by
construction. -/
structure ProgramOk (bytecode : Bytecode) (pos : Nat) : Prop where
  halt : haltPos bytecode.opcodes = some pos
  errorKinds : ∀ kind, .errorKind kind ∈ bytecode.constants →
    ∃ t ∈ bytecode.errorTemplates, t.kind = kind
  sourceMap : ∀ map, bytecode.sourceMap = some map → SourceMapOk bytecode.opcodes.length map.entries
  table : FunctionTableOk bytecode.opcodes.length pos bytecode.functions
  functionRefs : FunctionRefsOk bytecode.functions.length bytecode.opcodes
    bytecode.callableTemplates bytecode.runtimeProcessSpecs
  opcodes : ∀ op ∈ bytecode.opcodes, OpcodeRefsOk metas bytecode op
  returns : ∀ i op, bytecode.opcodes[i]? = some op → op.isReturnLike → pos < i

theorem verifyProgram_ok :
    verifyProgram metas bytecode = .ok () ↔ ∃ pos, ProgramOk metas bytecode pos := by
  have hreg : validateTypeRegistryAppend [] bytecode.typeRegistry.entries = .ok () := by
    rw [validateTypeRegistryAppend_eq, nil_append]
    exact bytecode.typeRegistry.valid
  simp only [verifyProgram, hreg, bind_unit_eq_ok, mapError_eq_ok,
    verifyErrorKindConstants_ok, verifySourceMapEntries_ok, validateProgramFunctionTable_ok,
    append_nil, true_and]
  constructor
  · rintro ⟨hkinds, hmap, ⟨pos, hhalt, htable, hrefs⟩, hops⟩
    rw [hhalt] at hops
    simp only [checkIdx_ok_iff, verifyOpcode_ok] at hops
    refine ⟨pos, hhalt, hkinds, hmap, htable, hrefs, ?_, ?_⟩
    · intro op hmem
      obtain ⟨i, hi⟩ := mem_iff_getElem?.mp hmem
      exact (hops i op hi).1
    · intro i op hi
      exact (hops i op hi).2
  · rintro ⟨pos, hhalt, hkinds, hmap, htable, hrefs, hops, hrets⟩
    refine ⟨hkinds, hmap, ⟨pos, hhalt, htable, hrefs⟩, ?_⟩
    rw [hhalt]
    simp only [checkIdx_ok_iff, verifyOpcode_ok]
    intro i op hi
    exact ⟨hops op (mem_of_getElem? hi), hrets i op hi⟩

end Program

/-- Indices are chunk-local; builtin, delegate, callable-template and dbg references
pass unchecked. -/
def verifyChunkOpcode (chunk : BytecodeChunk) (haltPos idx : Nat) (op : Opcode) :
    Except VerifyError Unit :=
  match op with
  | .jumpIfLocalTagEq _ tagConstIdx addr | .jumpIfLocalTagNe _ tagConstIdx addr => do
    ensure (tagConstIdx < chunk.constants.length) (.constIndex true tagConstIdx)
    ensure (addr < chunk.opcodes.length) (.jumpTarget true addr)
  | .jump addr | .jumpIfFalse addr | .jumpIfTrue addr =>
    ensure (addr < chunk.opcodes.length) (.jumpTarget true addr)
  | .loadConst idx | .storeConstLocal idx _ | .eqLocalTag _ idx =>
    ensure (idx < chunk.constants.length) (.constIndex true idx)
  | .makeError templateId =>
    ensure (templateId < chunk.errorTemplates.length) (.errorTemplate true templateId)
  | .ret | .tailCallClosure .. => ensure (haltPos < idx) .returnAtTopLevel
  | _ => .ok ()

def verifyChunk (bytecode : Bytecode) (chunk : BytecodeChunk) : Except VerifyError Unit := do
  (validateTypeRegistryAppend bytecode.typeRegistry.entries chunk.typeEntries).mapError
    .typeRegistry
  verifyErrorKindConstants chunk.constants bytecode.errorTemplates chunk.errorTemplates
  verifySourceMapEntries chunk.sourceMap chunk.opcodes.length true
  ensure (chunk.constBase = bytecode.constants.length)
    (.constBaseMismatch chunk.constBase bytecode.constants.length)
  ensure (chunk.errorTemplateBase = bytecode.errorTemplates.length)
    (.errorTemplateBaseMismatch chunk.errorTemplateBase bytecode.errorTemplates.length)
  ensure (chunk.typeRegistryBase = bytecode.typeRegistry.entries.length)
    (.typeRegistryBaseMismatch chunk.typeRegistryBase bytecode.typeRegistry.entries.length)
  match haltPos chunk.opcodes with
  | some pos => checkIdx (verifyChunkOpcode chunk pos) chunk.opcodes
  | none => .error (.missingHalt true)
  let _ ← (validateChunkFunctionTable chunk.opcodes chunk.callableTemplates
    chunk.runtimeProcessSpecs chunk.functions bytecode.functions.length true).mapError
    .functionTable

@[mk_iff]
structure ChunkRefsOk (chunk : BytecodeChunk) (op : Opcode) : Prop where
  const : ∀ idx, constRef op = some idx → idx < chunk.constants.length
  jump : ∀ addr, jumpRef op = some addr → addr < chunk.opcodes.length
  errorTemplate : ∀ t, errorTemplateRef op = some t → t < chunk.errorTemplates.length

theorem verifyChunkOpcode_ok {chunk : BytecodeChunk} {pos idx : Nat} {op : Opcode} :
    verifyChunkOpcode chunk pos idx op = .ok () ↔
      ChunkRefsOk chunk op ∧ (op.isReturnLike → pos < idx) := by
  rw [chunkRefsOk_iff]
  cases op <;>
    simp [verifyChunkOpcode, constRef, jumpRef, errorTemplateRef, Opcode.isReturnLike,
      bind_unit_eq_ok]

/-- What `verify_chunk` establishes of a chunk against an image, `pos` being
the chunk's own `Halt` and `next` the length of the function table to be. -/
structure ChunkOk (bytecode : Bytecode) (chunk : BytecodeChunk) (pos next : Nat) : Prop where
  registry : validateTypeRegistryAppend bytecode.typeRegistry.entries chunk.typeEntries = .ok ()
  errorKinds : ∀ kind, .errorKind kind ∈ chunk.constants →
    ∃ t ∈ bytecode.errorTemplates ++ chunk.errorTemplates, t.kind = kind
  sourceMap : ∀ map, chunk.sourceMap = some map → SourceMapOk chunk.opcodes.length map.entries
  constBase : chunk.constBase = bytecode.constants.length
  errorTemplateBase : chunk.errorTemplateBase = bytecode.errorTemplates.length
  typeRegistryBase : chunk.typeRegistryBase = bytecode.typeRegistry.entries.length
  halt : haltPos chunk.opcodes = some pos
  opcodes : ∀ op ∈ chunk.opcodes, ChunkRefsOk chunk op
  returns : ∀ i op, chunk.opcodes[i]? = some op → op.isReturnLike → pos < i
  functions : validateChunkEntries chunk.opcodes.length pos bytecode.functions.length true []
    bytecode.functions.length (chunk.functions.insertionSort (fun a b => a.funIdx ≤ b.funIdx))
      = .ok next
  functionRefs : FunctionRefsOk next chunk.opcodes chunk.callableTemplates
    chunk.runtimeProcessSpecs

theorem validateChunkFunctionTable_ok {opcodes : List Opcode}
    {callableTemplates : List CallableTemplate} {specs : List RuntimeProcessSpec}
    {functions : List FunctionEntry} {base next : Nat} {allow : Bool} :
    validateChunkFunctionTable opcodes callableTemplates specs functions base allow = .ok next ↔
      ∃ pos, haltPos opcodes = some pos ∧ validateChunkEntries opcodes.length pos base allow [] base
          (functions.insertionSort (fun a b => a.funIdx ≤ b.funIdx)) = .ok next ∧
        FunctionRefsOk next opcodes callableTemplates specs := by
  simp only [validateChunkFunctionTable, bind_eq_ok, topLevelHaltPos_eq_ok, pure, Except.pure,
    Except.ok.injEq]
  constructor
  · rintro ⟨pos, hhalt, next', hents, ⟨⟩, hrefs, rfl⟩
    exact ⟨pos, hhalt, hents, validateFunctionRefs_ok.mp hrefs⟩
  · rintro ⟨pos, hhalt, hents, hrefs⟩
    exact ⟨pos, hhalt, next, hents, (), validateFunctionRefs_ok.mpr hrefs, rfl⟩

theorem verifyChunk_ok {chunk : BytecodeChunk}
    (h : verifyChunk bytecode chunk = .ok ()) : ∃ pos next, ChunkOk bytecode chunk pos next := by
  simp only [verifyChunk, bind_unit_eq_ok, mapError_eq_ok, verifyErrorKindConstants_ok,
    verifySourceMapEntries_ok, ensure_eq_ok] at h
  obtain ⟨hreg, hkinds, hmap, hconst, herr, htype, h⟩ := h
  cases hhalt : haltPos chunk.opcodes with
  | none => simp [hhalt, bind, Except.bind] at h
  | some pos =>
    simp only [hhalt, bind_unit_eq_ok, checkIdx_ok_iff, verifyChunkOpcode_ok] at h
    obtain ⟨hops, htable⟩ := h
    rw [bind_eq_ok] at htable
    obtain ⟨next, htable, -⟩ := htable
    rw [mapError_eq_ok, validateChunkFunctionTable_ok] at htable
    obtain ⟨pos', hpos', hents, hrefs⟩ := htable
    obtain rfl : pos = pos' := by simpa [hhalt] using hpos'
    refine ⟨pos, next, hreg, hkinds, hmap, hconst, herr, htype, hhalt, ?_, ?_, hents, hrefs⟩
    · intro op hmem
      obtain ⟨i, hi⟩ := mem_iff_getElem?.mp hmem
      exact (hops i op hi).1
    · intro i op hi
      exact (hops i op hi).2

end Surtr.Eldr
