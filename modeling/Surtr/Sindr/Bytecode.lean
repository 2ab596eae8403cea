import Surtr.Sindr.TypeRegistry

/-!
# Programs and chunks (`sindr/src/ir.rs`)

The indices of a `BytecodeChunk` are relative to the tables of the image it was
produced against.
-/

namespace Surtr.Sindr

variable {opcodes : List Opcode} {pos : Nat}

structure CompileInfo where
  bytecodeVersion : Nat := 3
  debugLevel : Nat := 2
  numLocals : Nat := 0
  compilerVersion : Option String := none
  target : Option String := none
  buildProfile : Option String := none
  sourceHash : Option String := none
  moduleHash : Option String := none
  deriving DecidableEq

structure LabelEntry where
  name : String
  pc : Nat
  deriving DecidableEq

inductive ImportKind where
  | builtin | function | runtime
  deriving DecidableEq

structure ImportEntry where
  symbol : String
  kind : ImportKind
  arity : Nat
  builtinId : Option Nat
  functionId : Option Nat
  callPcs : List Nat
  deriving DecidableEq

structure ExportEntry where
  symbol : String
  arity : Nat
  functionId : Nat
  entryPc : Nat
  docQualifiedName : Option String
  deriving DecidableEq

inductive LiteralKind where
  | int | tag | float | str | bool | unit | errorKind
  deriving DecidableEq

structure LiteralEntry where
  constIdx : Nat
  kind : LiteralKind
  display : String
  deriving DecidableEq

structure LineEntry where
  line : Nat
  startPc : Nat
  endPc : Nat
  sourceName : Option String
  deriving DecidableEq

structure SpanEntry where
  spanId : Nat
  spanStart : Nat
  spanEnd : Nat
  line : Nat
  column : Nat
  sourceName : Option String
  deriving DecidableEq

structure SourceFileEntry where
  sourceId : Nat
  path : String
  normalizedPath : Option String
  contentHash : Option String
  text : Option String
  deriving DecidableEq

structure PcSpanEntry where
  pc : Nat
  spanId : Nat
  deriving DecidableEq

/-- An image: the code and the tables its indices point into. -/
@[ext]
structure Bytecode where
  opcodes : List Opcode := []
  constants : List Constant := []
  numLocals : Nat := 0
  typeRegistry : TypeRegistry := TypeRegistry.empty
  errorTemplates : List ErrTemplate := []
  dbgTemplates : List DbgTemplate := []
  callableTemplates : List CallableTemplate := []
  functions : List FunctionEntry := []
  sourceMap : Option SourceMap := none
  docs : List DocEntry := []
  signatures : List SignatureEntry := []
  compileInfo : CompileInfo := {}
  labels : List LabelEntry := []
  imports : List ImportEntry := []
  exports : List ExportEntry := []
  literals : List LiteralEntry := []
  lines : List LineEntry := []
  spans : List SpanEntry := []
  sources : List SourceFileEntry := []
  pcSpans : List PcSpanEntry := []
  runtimeProcessSpecs : List RuntimeProcessSpec := []
  runtimeBootPlan : RuntimeBootPlan := {}

/-- What is added to an image. Each `Base` is the length of the image's table the
chunk was produced against. -/
structure BytecodeChunk where
  opcodes : List Opcode := []
  sourceMap : Option SourceMap := none
  constBase : Nat := 0
  constants : List Constant := []
  newLocals : Nat := 0
  typeRegistryBase : Nat := 0
  typeEntries : List TypeEntry := []
  errorTemplateBase : Nat := 0
  errorTemplates : List ErrTemplate := []
  dbgTemplateBase : Nat := 0
  dbgTemplates : List DbgTemplate := []
  callableTemplates : List CallableTemplate := []
  functions : List FunctionEntry := []
  docs : List DocEntry := []
  signatures : List SignatureEntry := []
  runtimeProcessSpecs : List RuntimeProcessSpec := []
  runtimeBootPlan : RuntimeBootPlan := {}

/-- The end of the top-level code; function bodies come after it. -/
def haltPos (opcodes : List Opcode) : Option Nat :=
  opcodes.findIdx? Opcode.isHalt

section
variable (h : haltPos opcodes = some pos)
include h

theorem haltPos_some : opcodes[pos]? = some .halt ∧ ∀ i < pos, opcodes[i]? ≠ some .halt := by
  rw [haltPos, List.findIdx?_eq_some_iff_getElem] at h
  obtain ⟨hlt, hp, hmin⟩ := h
  refine ⟨?_, ?_⟩
  · rw [List.getElem?_eq_getElem hlt]
    cases hop : opcodes[pos] <;> simp_all [Opcode.isHalt]
  intro i hi heq
  have hfalse := hmin i hi
  rw [List.getElem?_eq_getElem (by omega)] at heq
  simp only [Option.some.injEq] at heq
  simp [heq, Opcode.isHalt] at hfalse

theorem haltPos_lt : pos < opcodes.length := by
  have hget := (haltPos_some h).1
  exact (List.getElem?_eq_some_iff.mp hget).1

theorem haltPos_append (more : List Opcode) : haltPos (opcodes ++ more) = some pos := by
  rw [haltPos] at h ⊢
  rw [List.findIdx?_append, h]
  rfl

end

end Surtr.Sindr
