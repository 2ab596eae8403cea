import Surtr.Sindr.FunctionTable
import Surtr.Sindr.Value

/-!
# Runtime errors (`eldr/src/error.rs`, and every `RuntimeError::new` of `eldr/src/vm.rs`)

One constructor for each place that builds an error; `message` is its text. What
`enrich_runtime_error` adds for reports is left out.
-/

namespace Surtr.Eldr
open Surtr.Sindr

inductive VerifyError where
  | typeRegistry (error : TypeRegistryError)
  | unknownErrorKind (kind : String)
  | sourceMapOutOfBounds (chunk : Bool) (opcodeIndex : Nat)
  | sourceMapDuplicate (chunk : Bool) (opcodeIndex : Nat)
  | functionTable (error : BytecodeValidationError)
  | returnAtTopLevel
  | missingHalt (chunk : Bool)
  | constIndex (chunk : Bool) (idx : Nat)
  | jumpTarget (chunk : Bool) (addr : Nat)
  | errorTemplate (chunk : Bool) (templateId : Nat)
  | unknownBuiltinRef (builtinId : Nat)
  | unknownDelegateFunction (funIdx : Nat)
  | unknownCallableTemplateRef (templateId : Nat)
  | unknownDbgTemplateRef (templateId : Nat)
  | constBaseMismatch (chunk vm : Nat)
  | errorTemplateBaseMismatch (chunk vm : Nat)
  | typeRegistryBaseMismatch (chunk vm : Nat)
  | dbgTemplateBaseMismatch (chunk vm : Nat)
  deriving DecidableEq

def VerifyError.message : VerifyError → String
  | typeRegistry error => s!"Bytecode verifier: {error.message}"
  | unknownErrorKind kind => s!"Bytecode verifier: unknown ErrorKind identity {kind}"
  | sourceMapOutOfBounds chunk idx =>
    "Bytecode verifier: " ++ (if chunk then "chunk " else "") ++
      s!"source_map opcode_index out of bounds: {idx}"
  | sourceMapDuplicate chunk idx =>
    "Bytecode verifier: " ++ (if chunk then "chunk " else "") ++
      s!"duplicate source_map entry for opcode_index {idx}"
  | functionTable error => error.message
  | returnAtTopLevel => "Return at top-level"
  | missingHalt chunk =>
    if chunk then "Bytecode verifier: chunk missing Halt" else "Bytecode verifier: missing Halt"
  | constIndex chunk idx =>
    (if chunk then "Bytecode verifier: chunk " else "") ++ s!"LoadConst index out of bounds: {idx}"
  | jumpTarget chunk addr =>
    if chunk then s!"Bytecode verifier: chunk jump target out of bounds: {addr}"
    else s!"Invalid jump target: {addr}"
  | errorTemplate chunk templateId =>
    if chunk then s!"Bytecode verifier: chunk error template out of bounds: {templateId}"
    else s!"Unknown error template: {templateId}"
  | unknownBuiltinRef builtinId => s!"Bytecode verifier: unknown builtin ref {builtinId}"
  | unknownDelegateFunction funIdx =>
    s!"Bytecode verifier: unknown callable delegate function {funIdx}"
  | unknownCallableTemplateRef templateId =>
    s!"Bytecode verifier: unknown callable template ref {templateId}"
  | unknownDbgTemplateRef templateId =>
    s!"Bytecode verifier: unknown dbg template ref {templateId}"
  | constBaseMismatch chunk vm => s!"Chunk constant base mismatch: chunk={chunk}, vm={vm}"
  | errorTemplateBaseMismatch chunk vm =>
    s!"Chunk error template base mismatch: chunk={chunk}, vm={vm}"
  | typeRegistryBaseMismatch chunk vm =>
    s!"Chunk type registry base mismatch: chunk={chunk}, vm={vm}"
  | dbgTemplateBaseMismatch chunk vm =>
    s!"Chunk dbg template base mismatch: chunk={chunk}, vm={vm}"

inductive LinkError where
  | baseTooLarge (table : String) (base : Nat)
  | relocationOverflow (table item : String) (index base : Nat)
  | opcodeCountExceedsU32
  | sourceMapOverflow
  | functionGap (funIdx len : Nat)
  deriving DecidableEq

def LinkError.message : LinkError → String
  | baseTooLarge table base =>
    if table = "Code" then s!"Code base too large for jump relocation: {base}"
    else s!"{table} base too large for relocation: {base}"
  | relocationOverflow table item index base =>
    s!"{table} relocation overflow: {item} {index} + base {base}"
  | opcodeCountExceedsU32 => "opcode count exceeds u32"
  | sourceMapOverflow => "source_map opcode index overflow"
  | functionGap funIdx len =>
    s!"Function table invariant violated in chunk: fun_idx {funIdx} > len {len}"

inductive ExecError where
  | reservedOpcode
  | constIndex (idx : Nat)
  | nonFiniteConstant
  | unknownErrorKind (kind : String)
  | localOutOfBounds (what : String) (slot : Nat)
  | stackUnderflow
  | frameStackUnderflow
  | expected (what : String) (got : Value)
  | expectedFiniteFloat
  | nonFiniteFloat (opName : String)
  | eqPidOperands
  | eqPidUnregistered
  | eqPidIdentity
  | eqPidTypes
  | eqPidHandler
  | emptyOperand (opName kind : String)
  | operandKind (what : String) (got : Value)
  | tupleIndex (fieldIndex : Nat)
  | fieldIndex (fieldIndex : Nat)
  | nonTagged (opName : String)
  | invalidMatchResult (qualifiedName : String)
  | localTagOutOfBounds (opName : String) (localIdx : Nat)
  | invalidJumpTarget (addr : Nat)
  | dbgTemplateNotFound (templateId : Nat)
  | dbgArgCount (want got : Nat)
  | unknownFunctionIndex (funIdx : Nat)
  | functionTableInvariant (idx funIdx : Nat)
  | callArity (funIdx want got : Nat)
  | functionEntryPc (funIdx entryPc : Nat)
  | localSlots (funIdx needed got : Nat)
  | unknownErrorSchema (templateId : Nat)
  | errorPayloadContract (kind : String)
  | errorMessageNotString
  | errorNoSpan
  | errorInvalidSpan
  | requiresError (what : String)
  | errorPayloadIdentity
  | errorPayloadDeclaration
  | errorPayloadType
  | errorPayloadIndex
  | literalPayloadMissing
  | display (message : String)
  | contractViolation (message : String)
  | callableExpected (message : String)
  | originCapture (captureIndex : Nat)
  | branchBool (opName : String)
  | returnAtTopLevel
  | returnEmptyFrames
  | pcOutOfBounds
  | haltInContinuation
  | unknownCallableTemplate (templateId : Nat)
  | templateArg (templateId : Nat) (what : String) (index : Nat)
  | templateBoundCount
  | templateArity (templateId : Nat) (what : String)
  | templateCapture (templateId : Nat) (side : String)
  | noDestination (message : String)
  | errorConstructor (problem kind : String)
  | errorConstruction (message : String)
  | didNotFinish

def ExecError.message (debug : Value → String) : ExecError → String
  | reservedOpcode => "Reserved opcode tag 56 cannot execute"
  | constIndex idx => s!"LoadConst index out of bounds: {idx}"
  | nonFiniteConstant => "Float constants must be finite"
  | unknownErrorKind kind => s!"LoadConst: unknown ErrorKind identity {kind}"
  | localOutOfBounds what slot => s!"{what} out of bounds: {slot}"
  | stackUnderflow => "Stack underflow"
  | frameStackUnderflow => "Frame stack underflow"
  | expected what got => s!"Expected {what}, got {debug got}"
  | expectedFiniteFloat => "Expected finite Float"
  | nonFiniteFloat opName => s!"Float operation produced non-finite value: {opName}"
  | eqPidOperands => "EqPid requires two PID values"
  | eqPidUnregistered => "EqPid received an unregistered process PID"
  | eqPidIdentity => "EqPid process identity does not match canonical declaration"
  | eqPidTypes => "EqPid received PIDs of different process types"
  | eqPidHandler => "EqPid received handler capability"
  | emptyOperand opName kind => s!"{opName} on empty {kind}"
  | operandKind what got => s!"{what}, got {debug got}"
  | tupleIndex i => s!"Tuple index {i} out of bounds"
  | fieldIndex i => s!"Field index {i} out of bounds"
  | nonTagged opName => s!"{opName} on non-tagged value"
  | invalidMatchResult qualifiedName => s!"Invalid MatchResult representation for {qualifiedName}"
  | localTagOutOfBounds opName localIdx => s!"{opName} local out of bounds: {localIdx}"
  | invalidJumpTarget addr => s!"Invalid jump target: {addr}"
  | dbgTemplateNotFound templateId => s!"dbg template {templateId} not found"
  | dbgArgCount want got =>
    s!"dbg arg count mismatch: template has {want}, runtime has {got}"
  | unknownFunctionIndex funIdx => s!"Unknown function index: {funIdx}"
  | functionTableInvariant idx funIdx =>
    s!"Function table invariant violated: functions[{idx}].fun_idx = {funIdx}"
  | callArity funIdx want got =>
    s!"Call arity mismatch for function {funIdx}: expected {want}, got {got}"
  | functionEntryPc funIdx entryPc => s!"Function {funIdx} entry_pc out of bounds: {entryPc}"
  | localSlots funIdx needed got =>
    s!"Function {funIdx} requires at least {needed} local slots, got {got}"
  | unknownErrorSchema templateId => s!"Unknown Error schema {templateId}"
  | errorPayloadContract kind => s!"Error payload contract mismatch for {kind}"
  | errorMessageNotString => "Error construction expects String message"
  | errorNoSpan => "Error constructor has no generation source span"
  | errorInvalidSpan => "Error generation source span is invalid"
  | requiresError what => s!"{what} requires Error"
  | errorPayloadIdentity => "Error payload identity or length contract mismatch"
  | errorPayloadDeclaration => "Error payload declaration metadata missing"
  | errorPayloadType => "Error payload type contract mismatch"
  | errorPayloadIndex => "Error payload field index out of range"
  | literalPayloadMissing => "literal Error payload is missing actual value"
  | display message => message
  | contractViolation message => message
  | callableExpected message => message
  | originCapture captureIndex =>
    s!"SetCallableOriginSource capture index {captureIndex} is not a callable"
  | branchBool opName => s!"{opName}: expected Bool"
  | returnAtTopLevel => "Return at top-level"
  | returnEmptyFrames => "Return with empty frame stack"
  | pcOutOfBounds => "PC out of bounds"
  | haltInContinuation => "Halt inside a callable continuation"
  | unknownCallableTemplate templateId => s!"Unknown callable template: {templateId}"
  | templateArg templateId what index =>
    s!"Callable template {templateId} {what} arg out of bounds: {index}"
  | templateBoundCount => "Callable template bound arg out of bounds"
  | templateArity templateId what => s!"Callable template {templateId} requires {what}"
  | templateCapture templateId side =>
    s!"Callable template {templateId} expects {side} callable capture"
  | noDestination message => message
  | errorConstructor problem kind => s!"{problem} {kind}"
  | errorConstruction message => message
  | didNotFinish => "chunk execution did not finish"

/-- `RuntimeError`; `host` is an error raised inside a builtin or the process
runtime. -/
inductive RuntimeError where
  | verify (error : VerifyError)
  | link (error : LinkError)
  | exec (error : ExecError)
  | host (message : String)

def RuntimeError.message (debug : Value → String) : RuntimeError → String
  | verify error => error.message
  | link error => error.message
  | exec error => error.message debug
  | host message => message

/-- The errors raised by following a reference into one of the image's tables:
constants, code addresses, functions, callable templates, error templates. -/
def ExecError.isIndexError : ExecError → Bool
  | constIndex _ => true
  | invalidJumpTarget _ => true
  | unknownFunctionIndex _ => true
  | functionTableInvariant _ _ => true
  | functionEntryPc _ _ => true
  | unknownErrorSchema _ => true
  | unknownCallableTemplate _ => true
  | _ => false

def RuntimeError.isIndexError : RuntimeError → Bool
  | exec error => error.isIndexError
  | _ => false

end Surtr.Eldr
