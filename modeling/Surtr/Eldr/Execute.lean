import Surtr.Eldr.Machine
import Mathlib.Data.Int.Bitwise

/-!
# The interpreter (`eldr/src/vm.rs`)

`executeOpcode` receives the address after the instruction and returns where to
go on; an error leaves the machine as far as the instruction had got.
-/

namespace Surtr.Eldr
open Surtr.Sindr Surtr.Lib

inductive OpcodeControl where
  | next (pc : Nat)
  | halt
  | pending (futureId resumePc : Nat)

section Interpreter
variable {W K : Type} (host : Host W K) (bytecode : Bytecode)

def proceed (pc : Nat) (body : Exec W K Unit) : Exec W K OpcodeControl := do
  body
  pure (.next pc)

def canOptimizeTailCall (frames : List CallFrame) (nextPc : Nat) : Bool :=
  decide (1 < frames.length) && (bytecode.opcodes[nextPc]?.map Opcode.isReturn).getD false

/-- The callee of a bytecode function gets a new frame or, on a tail call, the
caller's. -/
def enterFunction (funIdx : Nat) (entry : FunctionEntry) (args : List Value) (pc : Nat)
    (site : CallSite) (tail : Bool) : Exec W K OpcodeControl := do
  if entry.entryPc ≥ bytecode.opcodes.length then
    fail (.functionEntryPc funIdx entry.entryPc)
  let locals ← Eff.liftExcept (buildLocalsForCall entry args)
  if tail then
    modifyFrame fun frame => { frame with locals := locals, callSite := site }
  else
    Eff.update fun m => { m with frames :=
      { returnPc := pc, stackBase := m.stack.length, callSite := site, locals := locals } ::
        m.frames }
  pure (.next entry.entryPc)

def scheduleInvocation (invocation : Invocation K) (resumePc : Nat) (tail : Bool)
    (site : CallSite) : Exec W K Unit := do
  let frame ← currentFrame
  modifyFrame fun frame => { frame with callSite := site }
  Eff.update fun m => { m with
    continuations :=
      { destination := .stack tail frame.callSite, frameDepth := m.frames.length,
        stackBase := m.stack.length, resumePc := resumePc } :: m.continuations
    pendingInvocation := some (.ok invocation) }

def returnFromCurrentFrame (ret : Value) : Exec W K Nat :=
  Eff.step fun m => match m.frames with
    | [] => (.error (.exec .returnEmptyFrames), m)
    | [_] => (.error (.exec .returnAtTopLevel), m)
    | frame :: rest =>
      (.ok frame.returnPc,
        { m with frames := rest, stack := ret :: truncateTo frame.stackBase m.stack })

/-- `CallClosure` and `TailCallClosure`, which differ in `tail` only. -/
def callClosure (arity : Nat) (site : CallSite) (tail : Bool) (pc : Nat) :
    Exec W K OpcodeControl := do
  let args ← popArgs arity
  match ← popStack with
  | .callable callable =>
    match callable.target with
    | .function funIdx =>
      let entry ← Eff.liftExcept (functionEntry bytecode funIdx)
      let fullArgs := callable.lexicalCaptures ++ args
      if entry.arity ≠ fullArgs.length then
        fail (.callArity funIdx entry.arity fullArgs.length)
      let frames ← Eff.reads Machine.frames
      enterFunction bytecode funIdx entry fullArgs pc site
        (tail || canOptimizeTailCall bytecode frames pc)
    | target =>
      proceed pc (scheduleInvocation
        (.callable (.mk target callable.lexicalCaptures {}) args) pc tail site)
  | _ => fail (.callableExpected "CallClosure expects a callable value")

/-- A future that has a value is replaced by it in the local and released; one that
has none suspends the context. -/
def loadLocalOrPending (slot pc : Nat) : Exec W K OpcodeControl := do
  let frame ← currentFrame
  match frame.locals[slot]? with
  | none => fail (.localOutOfBounds "LoadLocal" slot)
  | some (.pendingFuture futureId) =>
    match ← Eff.reads (fun m => host.readyFutureValue m.world futureId) with
    | some value => proceed pc do
      setLocal slot value
      Eff.update fun m =>
        { m with world := host.releaseInternalProcessFuture m.world futureId }
      pushStack value
    | none => pure (.pending futureId (pc - 1))
  | some value => proceed pc (pushStack value)

def storeLocal (what : String) (slot : Nat) (value : Value) : Exec W K Unit := do
  let frame ← currentFrame
  if slot < frame.locals.length then setLocal slot value
  else fail (.localOutOfBounds what slot)

def copyLocal (src dst : Nat) : Exec W K Unit := do
  let frame ← currentFrame
  match frame.locals[src]? with
  | none => fail (.localOutOfBounds "CopyLocal source" src)
  | some value => storeLocal "CopyLocal destination" dst value

def localTag (localIdx : Nat) (opName : String) : Exec W K Nat := do
  let frame ← currentFrame
  match frame.locals[localIdx]? with
  | none => fail (.localTagOutOfBounds opName localIdx)
  | some (.tagged tag fields) =>
    Eff.liftExcept (validateMatchResultRepresentation bytecode.typeRegistry tag fields)
    pure tag
  | some _ => fail (.nonTagged "GetTag")

def errorConstructionSource (continuations : List (ContinuationFrame K)) : CallSite :=
  continuations.findSome? fun frame => match frame.destination with
    | .builtin (.errorConstruction _ location _ _) => some (location.spanStart, location.spanEnd)
    | _ => none

def payloadAccepted (template : ErrTemplate) (payload : List Value) : Bool :=
  (template.payloadFields.zip payload).all fun p =>
    host.schemaAccepts bytecode.typeRegistry p.1.2 p.2

def makeError (templateId : Nat) : Exec W K Unit := do
  match bytecode.errorTemplates[templateId]? with
  | none => fail (.unknownErrorSchema templateId)
  | some template =>
    let payload ← popArgs template.payloadFields.length
    if payloadAccepted host bytecode template payload = false then
      fail (.errorPayloadContract template.kind)
    match ← popStack with
    | .str message =>
      let frame ← currentFrame
      let continuations ← Eff.reads Machine.continuations
      match frame.callSite.or (errorConstructionSource continuations) with
      | none => fail .errorNoSpan
      | some (spanStart, spanEnd) =>
        let world ← Eff.reads Machine.world
        match host.locationForSpan bytecode world spanStart spanEnd template.kind with
        | none => fail .errorInvalidSpan
        | some location =>
          pushStack (.error (.mk template.kind message payload location none none))
    | _ => fail .errorMessageNotString

def getErrorPayload (kind : String) (fieldIndex payloadLen : Nat) : Exec W K Unit := do
  let error ← popError "Error payload access"
  if error.kind ≠ kind ∨ error.payload.length ≠ payloadLen then fail .errorPayloadIdentity
  match bytecode.errorTemplates.find? (fun definition => definition.kind == kind) with
  | none => fail .errorPayloadDeclaration
  | some definition =>
    if definition.payloadFields.length ≠ error.payload.length ∨
        payloadAccepted host bytecode definition error.payload = false then
      fail .errorPayloadType
    match error.payload[fieldIndex]? with
    | some value => pushStack value
    | none => fail .errorPayloadIndex

def annotateError (diagnostic : RuntimeErrorDiagnosticTemplate) : Exec W K Unit := do
  let error ← popError "Error diagnostic annotation"
  match diagnostic with
  | .literalPatternMismatch lhs =>
    match error.payload[1]? with
    | none => fail .literalPayloadMissing
    | some actual =>
      match host.displayString bytecode.typeRegistry actual with
      | .error message => fail (.display message)
      | .ok rhs => pushStack (.error (error.withDiagnostic (.literalPatternMismatch lhs rhs)))
  | .safeBindPatternFailure rule inputSource =>
    pushStack (.error (error.withDiagnostic (.safeBindPatternFailure rule inputSource)))

def pidIdentityOk (world : W) (pid : PidHandle) : Except RuntimeError Unit :=
  match host.specByProcessName world pid.processName with
  | none => .error (.exec .eqPidUnregistered)
  | some spec =>
    let expected : PidKind := match spec.inst with
      | .singleton => .singleton
      | .worker => .worker
    if spec.typeName ≠ pid.processName ∨ expected ≠ pid.kind then .error (.exec .eqPidIdentity)
    else .ok ()

def eqPid : Exec W K Unit := do
  let right ← popStack
  let left ← popStack
  match left, right with
  | .pid left, .pid right =>
    let world ← Eff.reads Machine.world
    Eff.liftExcept (pidIdentityOk host world left)
    Eff.liftExcept (pidIdentityOk host world right)
    if left.processName ≠ right.processName ∨ left.kind ≠ right.kind then fail .eqPidTypes
    match left.kind with
    | .singleton => pushStack (.bool true)
    | .worker => pushStack (.bool (left.id == right.id))
    | .handler => fail .eqPidHandler
  | _, _ => fail .eqPidOperands

def dbgOutput (templateId argCount : Nat) : Exec W K Unit := do
  let values ← popArgs argCount
  match bytecode.dbgTemplates.find? (fun template => template.id == templateId) with
  | none => fail (.dbgTemplateNotFound templateId)
  | some template =>
    if template.args.length ≠ values.length then
      fail (.dbgArgCount template.args.length values.length)
    let world ← Eff.reads Machine.world
    match host.renderDbg bytecode world template values with
    | .error message => throw (.host message)
    | .ok lines =>
      Eff.update fun m => { m with world := lines.foldl host.emitStderrLine m.world }
      pushStack .unit

def pushCallable (target : CallableTarget) : Exec W K Unit :=
  pushStack (.callable (.mk target [] (host.callableMetadata bytecode target)))

def captureClosure (numCaptured : Nat) : Exec W K Unit := do
  let captures ← popArgs numCaptured
  match ← popStack with
  | .callable (.mk target existing metadata) =>
    pushStack (.callable (.mk target (existing ++ captures) metadata))
  | _ => fail (.callableExpected "CaptureClosure expects a callable target")

def modifyTopCallable (message : String)
    (f : Callable → Except RuntimeError Callable) : Exec W K Unit :=
  Eff.step fun m => match m.stack with
    | .callable callable :: rest =>
      match f callable with
      | .ok callable' => (.ok (), { m with stack := .callable callable' :: rest })
      | .error e => (.error e, m)
    | _ => (.error (.exec (.callableExpected message)), m)

def setOriginSource (captureIndex : Nat) : Callable → Except RuntimeError Callable
  | .mk target captures metadata =>
    match captures[captureIndex]? with
    | some (.callable _) =>
      .ok (.mk target captures { metadata with originSource := some captureIndex })
    | _ => .error (.exec (.originCapture captureIndex))

def setMetadata (f : CallableMetadata → CallableMetadata) : Callable → Except RuntimeError Callable
  | .mk target captures metadata => .ok (.mk target captures (f metadata))

def branchOn (opName : String) (jumpWhen : Bool) (addr pc : Nat) : Exec W K OpcodeControl := do
  match ← popStack with
  | .bool flag =>
    if flag = jumpWhen then
      let target ← Eff.liftExcept (validateJumpTarget bytecode addr)
      pure (.next target)
    else pure (.next pc)
  | _ => fail (.branchBool opName)

def branchOnLocalTag (opName : String) (jumpWhenEqual : Bool)
    (localIdx tagConstIdx targetPc pc : Nat) : Exec W K OpcodeControl := do
  let expected ← Eff.liftExcept (constantTag bytecode tagConstIdx)
  let actual ← localTag bytecode localIdx opName
  if (actual == expected) = jumpWhenEqual then
    let target ← Eff.liftExcept (validateJumpTarget bytecode targetPc)
    pure (.next target)
  else pure (.next pc)

def popTagged (opName : String) : Exec W K (Nat × List Value) := do
  match ← popStack with
  | .tagged tag fields =>
    Eff.liftExcept (validateMatchResultRepresentation bytecode.typeRegistry tag fields)
    pure (tag, fields)
  | _ => fail (.nonTagged opName)

def strContains (value needle : String) : Bool :=
  value.toList.tails.any (needle.toList.isPrefixOf ·)

def strStartsWith (value needle : String) : Bool := needle.toList.isPrefixOf value.toList

def strEndsWith (value needle : String) : Bool := needle.toList.isSuffixOf value.toList

def popChars (opName : String) : Exec W K (Char × List Char) := do
  let value ← popStr
  match value.toList with
  | [] => fail (.emptyOperand opName "string")
  | head :: tail => pure (head, tail)

/-- `execute_opcode`; `pc` is the address after `op`. -/
def executeOpcode (op : Opcode) (pc : Nat) : Exec W K OpcodeControl :=
  match op with
  | .halt => pure .halt
  | .reserved56 => fail .reservedOpcode
  | .loadConst idx => proceed pc do
    let value ← Eff.liftExcept (constantValue bytecode idx)
    pushStack value
  | .loadBuiltinRef builtinId => proceed pc (pushCallable host bytecode (.builtin builtinId))
  | .loadFunctionRef funIdx => proceed pc (pushCallable host bytecode (.function funIdx))
  | .loadCallableTemplateRef templateId =>
    proceed pc (pushCallable host bytecode (.template templateId))
  | .loadLocal slot => loadLocalOrPending host slot pc
  | .storeLocal slot => proceed pc do
    let value ← popStack
    storeLocal "StoreLocal" slot value
  | .storeConstLocal constIdx localIdx => proceed pc do
    let value ← Eff.liftExcept (constantValue bytecode constIdx)
    storeLocal "StoreConstLocal" localIdx value
  | .copyLocal src dst => proceed pc (copyLocal src dst)
  | .pop => proceed pc do
    let _ ← popStack
  | .addInt => proceed pc (intBinop fun a b => .int (a + b))
  | .subInt => proceed pc (intBinop fun a b => .int (a - b))
  | .mulInt => proceed pc (intBinop fun a b => .int (a * b))
  | .bitNotInt => proceed pc do
    let a ← popInt
    pushStack (.int a.lnot)
  | .bitAndInt => proceed pc (intBinop fun a b => .int (a.land b))
  | .bitOrInt => proceed pc (intBinop fun a b => .int (a.lor b))
  | .bitXorInt => proceed pc (intBinop fun a b => .int (a.xor b))
  | .addFloat => proceed pc (floatBinop "AddFloat" (· + ·))
  | .subFloat => proceed pc (floatBinop "SubFloat" (· - ·))
  | .mulFloat => proceed pc (floatBinop "MulFloat" (· * ·))
  | .eqInt => proceed pc (intBinop fun a b => .bool (a == b))
  | .neqInt => proceed pc (intBinop fun a b => .bool (a != b))
  | .ltInt => proceed pc (intBinop fun a b => .bool (decide (a < b)))
  | .gtInt => proceed pc (intBinop fun a b => .bool (decide (b < a)))
  | .lteInt => proceed pc (intBinop fun a b => .bool (decide (a ≤ b)))
  | .gteInt => proceed pc (intBinop fun a b => .bool (decide (b ≤ a)))
  | .eqFloat => proceed pc (floatPredicate (· == ·))
  | .neqFloat => proceed pc (floatPredicate (· != ·))
  | .ltFloat => proceed pc (floatPredicate fun a b => decide (a < b))
  | .gtFloat => proceed pc (floatPredicate fun a b => decide (b < a))
  | .lteFloat => proceed pc (floatPredicate fun a b => decide (a ≤ b))
  | .gteFloat => proceed pc (floatPredicate fun a b => decide (b ≤ a))
  | .eqStr => proceed pc (strPredicate (· == ·))
  | .neqStr => proceed pc (strPredicate (· != ·))
  | .eqBool => proceed pc (boolPredicate (· == ·))
  | .neqBool => proceed pc (boolPredicate (· != ·))
  | .eqPid => proceed pc (eqPid host)
  | .concatStr => proceed pc do
    let b ← popStr
    let a ← popStr
    pushStack (.str (a ++ b))
  | .stringLen => proceed pc do
    let value ← popStr
    pushStack (.int value.length)
  | .stringContains => proceed pc (strPredicate strContains)
  | .stringStartsWith => proceed pc (strPredicate strStartsWith)
  | .stringEndsWith => proceed pc (strPredicate strEndsWith)
  | .stringIsEmpty => proceed pc do
    let value ← popStr
    pushStack (.bool value.isEmpty)
  | .stringHead => proceed pc do
    let chars ← popChars "StringHead"
    pushStack (.str (String.ofList [chars.1]))
  | .stringTail => proceed pc do
    let chars ← popChars "StringTail"
    pushStack (.str (String.ofList chars.2))
  | .negInt => proceed pc do
    let a ← popInt
    pushStack (.int (-a))
  | .negFloat => proceed pc do
    let a ← popFloat
    let value ← Eff.liftExcept (finiteFloatValue (F64.ofFloat (-a)) "NegFloat")
    pushStack value
  | .notBool => proceed pc do
    let a ← popBool
    pushStack (.bool !a)
  | .listEmpty => proceed pc (pushStack (.list []))
  | .listNil => proceed pc (pushStack (.list []))
  | .listCons => proceed pc do
    let tail ← popStack
    let head ← popStack
    match tail with
    | .list items => pushStack (.list (head :: items))
    | other => fail (.operandKind "ListCons expects list tail" other)
  | .listIsEmpty => proceed pc do
    let items ← popList "ListIsEmpty expects List"
    pushStack (.bool items.isEmpty)
  | .listLen => proceed pc do
    let items ← popList "ListLen expects List"
    pushStack (.int items.length)
  | .listHead => proceed pc do
    match ← popList "ListHead expects List" with
    | [] => fail (.emptyOperand "ListHead" "list")
    | head :: _ => pushStack head
  | .listTail => proceed pc do
    match ← popList "ListTail expects List" with
    | [] => fail (.emptyOperand "ListTail" "list")
    | _ :: tail => pushStack (.list tail)
  | .listFromItems len => proceed pc do
    let items ← popArgs len
    pushStack (.list items)
  | .tupleNew len => proceed pc do
    let items ← popArgs len
    pushStack (.tuple items)
  | .getTupleField fieldIndex => proceed pc do
    match ← popStack with
    | .tuple items =>
      match items[fieldIndex]? with
      | some field => pushStack field
      | none => fail (.tupleIndex fieldIndex)
    | other => fail (.operandKind "GetTupleField expects Tuple" other)
  | .structNew fieldCount => proceed pc do
    let fields ← popArgs fieldCount
    match ← popStack with
    | .tag tag => pushStack (.tagged tag fields)
    | other => fail (.operandKind "StructNew: expected Tag" other)
  | .getField fieldIndex => proceed pc do
    let value ← popTagged bytecode "GetField"
    match value.2[fieldIndex]? with
    | some field => pushStack field
    | none => fail (.fieldIndex fieldIndex)
  | .getTag => proceed pc do
    let value ← popTagged bytecode "GetTag"
    pushStack (.tag value.1)
  | .eqTag => proceed pc do
    let b ← popTag
    let a ← popTag
    pushStack (.bool (a == b))
  | .makeOk => proceed pc do
    let payload ← popStack
    pushStack (.tagged 0 [payload])
  | .makeErr => proceed pc do
    match ← popStack with
    | .error e => pushStack (.tagged 1 [.error e])
    | other => fail (.operandKind "MakeErr: expected Error" other)
  | .eqLocalTag localIdx tagConstIdx => proceed pc do
    let expected ← Eff.liftExcept (constantTag bytecode tagConstIdx)
    let actual ← localTag bytecode localIdx "EqLocalTag"
    pushStack (.bool (actual == expected))
  | .jumpIfLocalTagEq localIdx tagConstIdx targetPc =>
    branchOnLocalTag bytecode "JumpIfLocalTagEq" true localIdx tagConstIdx targetPc pc
  | .jumpIfLocalTagNe localIdx tagConstIdx targetPc =>
    branchOnLocalTag bytecode "JumpIfLocalTagNe" false localIdx tagConstIdx targetPc pc
  | .dbg templateId argCount => proceed pc (dbgOutput host bytecode templateId argCount)
  | .callBuiltin builtinId arity spanStart spanEnd => proceed pc do
    let args ← popArgs arity
    scheduleInvocation (.callable (.mk (.builtin builtinId) [] {}) args) pc false
      (some (spanStart, spanEnd))
  | .call funIdx arity spanStart spanEnd => do
    let entry ← Eff.liftExcept (functionEntry bytecode funIdx)
    if entry.arity ≠ arity then fail (.callArity funIdx entry.arity arity)
    let args ← popArgs arity
    let frames ← Eff.reads Machine.frames
    enterFunction bytecode funIdx entry args pc (some (spanStart, spanEnd))
      (canOptimizeTailCall bytecode frames pc)
  | .makeError templateId => proceed pc (makeError host bytecode templateId)
  | .isErrorKind kind => proceed pc do
    let error ← popError "Error kind check"
    pushStack (.bool (error.kind == kind))
  | .getErrorPayload kind fieldIndex payloadLen =>
    proceed pc (getErrorPayload host bytecode kind fieldIndex payloadLen)
  | .annotateError diagnostic => proceed pc (annotateError host bytecode diagnostic)
  | .runtimeContractViolation message => fail (.contractViolation message)
  | .captureClosure numCaptured => proceed pc (captureClosure numCaptured)
  | .setCallableSignature signature =>
    proceed pc (modifyTopCallable "SetCallableSignature expects a callable on the stack"
      (setMetadata fun metadata => { metadata with fullSignature := some signature }))
  | .setCallableOriginSource captureIndex =>
    proceed pc (modifyTopCallable "SetCallableOriginSource expects a callable on the stack"
      (setOriginSource captureIndex))
  | .setCallableDelegateFunction funIdx =>
    proceed pc (modifyTopCallable "SetCallableDelegateFunction expects a callable on the stack"
      (setMetadata fun metadata => { metadata with delegateFunction := some funIdx }))
  | .callClosure arity spanStart spanEnd =>
    callClosure bytecode arity (some (spanStart, spanEnd)) false pc
  | .tailCallClosure arity spanStart spanEnd =>
    callClosure bytecode arity (some (spanStart, spanEnd)) true pc
  | .jump addr => do
    let target ← Eff.liftExcept (validateJumpTarget bytecode addr)
    pure (.next target)
  | .jumpIfFalse addr => branchOn bytecode "JumpIfFalse" false addr pc
  | .jumpIfTrue addr => branchOn bytecode "JumpIfTrue" true addr pc
  | .ret => do
    let value ← popStack
    let returnPc ← returnFromCurrentFrame value
    pure (.next returnPc)

end Interpreter

end Surtr.Eldr
