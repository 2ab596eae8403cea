import Mathlib.Algebra.Order.Ring.Nat
import Mathlib.Data.List.Basic

/-!
# The bytecode image (`sindr/src/ir.rs`)

`u32` and `usize` fields are natural numbers; an operation of the source that
wraps or checks for overflow states the bound `2^32` where it is performed.
-/

namespace Surtr.Sindr

/-- Bit pattern of an `f64`. -/
structure F64 where
  bits : UInt64
  deriving DecidableEq

namespace F64

def toFloat (a : F64) : Float := Float.ofBits a.bits
def ofFloat (x : Float) : F64 := ⟨x.toBits⟩
def isFinite (a : F64) : Bool := a.toFloat.isFinite

end F64

inductive RuntimeErrorDiagnosticTemplate where
  | literalPatternMismatch (lhs : String)
  | safeBindPatternFailure (rule : String) (inputSource : Option String)
  deriving DecidableEq

/-- Surtr bytecode instructions (`ir.rs:11-212`). -/
inductive Opcode where
  | loadConst (idx : Nat)
  | loadBuiltinRef (builtinId : Nat)
  | loadFunctionRef (funIdx : Nat)
  | loadLocal (slot : Nat)
  | storeLocal (slot : Nat)
  | addInt | subInt | mulInt | bitNotInt | bitAndInt | bitOrInt | bitXorInt
  | addFloat | subFloat | mulFloat
  | eqInt | neqInt | ltInt | gtInt | lteInt | gteInt
  | eqFloat | neqFloat | ltFloat | gtFloat | lteFloat | gteFloat
  | eqStr | neqStr
  | eqBool | neqBool
  | concatStr | stringIsEmpty | stringHead | stringTail
  | negInt | negFloat | notBool
  | listEmpty | listNil | listCons | listIsEmpty | listHead | listTail
  | listFromItems (len : Nat)
  | tupleNew (len : Nat)
  | getTupleField (fieldIndex : Nat)
  | structNew (fieldCount : Nat)
  | getField (fieldIndex : Nat)
  | getTag | eqTag
  | dbg (templateId : Nat) (argCount : Nat)
  | callBuiltin (builtinId : Nat) (arity : Nat) (spanStart spanEnd : Nat)
  | call (funIdx : Nat) (arity : Nat) (spanStart spanEnd : Nat)
  | captureClosure (numCaptured : Nat)
  | makeError (templateId : Nat)
  | reserved56
  | callClosure (arity : Nat) (spanStart spanEnd : Nat)
  | jump (addr : Nat)
  | jumpIfFalse (addr : Nat)
  | jumpIfTrue (addr : Nat)
  | pop
  | ret
  | halt
  | storeConstLocal (constIdx localIdx : Nat)
  | copyLocal (srcLocalIdx dstLocalIdx : Nat)
  | eqLocalTag (localIdx tagConstIdx : Nat)
  | stringLen | listLen
  | stringContains | stringStartsWith | stringEndsWith
  | makeOk | makeErr
  | jumpIfLocalTagEq (localIdx tagConstIdx targetPc : Nat)
  | jumpIfLocalTagNe (localIdx tagConstIdx targetPc : Nat)
  | tailCallClosure (arity : Nat) (spanStart spanEnd : Nat)
  | loadCallableTemplateRef (templateId : Nat)
  | setCallableSignature (signature : String)
  | setCallableOriginSource (captureIndex : Nat)
  | setCallableDelegateFunction (funIdx : Nat)
  | eqPid
  | isErrorKind (kind : String)
  | getErrorPayload (kind : String) (fieldIndex payloadLen : Nat)
  | annotateError (diagnostic : RuntimeErrorDiagnosticTemplate)
  | runtimeContractViolation (message : String)
  deriving DecidableEq

def Opcode.isHalt : Opcode → Bool
  | .halt => true
  | _ => false

def Opcode.isReturn : Opcode → Bool
  | .ret => true
  | _ => false

def Opcode.isReturnLike : Opcode → Bool
  | .ret => true
  | .tailCallClosure .. => true
  | _ => false

inductive Constant where
  | int (value : Int)
  | tag (value : Nat)
  | float (value : F64)
  | str (value : String)
  | bool (value : Bool)
  | unit
  | errorKind (kind : String)
  deriving DecidableEq

structure OpcodeSource where
  opcodeIndex : Nat
  spanStart : Nat
  spanEnd : Nat
  line : Nat
  column : Nat
  sourceName : Option String
  deriving DecidableEq

structure SourceMap where
  entries : List OpcodeSource
  deriving DecidableEq

structure FunctionFlags where
  isPublic : Bool := false
  closure : Bool := false
  partialApplyWrapper : Bool := false
  builtinWrapper : Bool := false
  tailEntry : Bool := false
  generated : Bool := false
  deriving DecidableEq

structure FunctionEntry where
  funIdx : Nat
  entryPc : Nat
  numLocals : Nat
  arity : Nat
  qualifiedName : Option String := none
  signature : Option String := none
  endPc : Nat := 0
  spanStart : Nat := 0
  spanEnd : Nat := 0
  flags : FunctionFlags := {}
  deriving DecidableEq

inductive CallableTemplateDirectTarget where
  | builtin (id : Nat)
  | function (funIdx : Nat)
  deriving DecidableEq

inductive CallableTemplateArg where
  | bound (index : Nat)
  | runtime (index : Nat)
  deriving DecidableEq

inductive CallableTemplateKind where
  | partialDirectCall (target : CallableTemplateDirectTarget)
      (argSources : List CallableTemplateArg)
  | injectDirectCall (target : CallableTemplateDirectTarget) (boundArgCount : Nat)
  | composeDirect
  deriving DecidableEq

inductive CallableOrigin where
  | unknown | closure | capture
  deriving DecidableEq

structure CallableTemplateMetadata where
  origin : CallableOrigin := .unknown
  moduleName : Option String := none
  name : Option String := none
  fullSignature : Option String := none
  deriving DecidableEq

structure CallableTemplate where
  templateId : Nat
  kind : CallableTemplateKind
  metadata : CallableTemplateMetadata := {}
  deriving DecidableEq

mutual
inductive ErrorValueSchema where
  | int | float | string | boolean | unit | error
  | callable (parameters : List ErrorValueSchema) (result : ErrorValueSchema)
  | typeParameter (index : Nat)
  | list (item : ErrorValueSchema)
  | tuple (items : List ErrorValueSchema)
  | result (ok err : ErrorValueSchema)
  | enumError (name : String) (kinds : List String) (hasOther : Bool)
  | matchResult (ok : ErrorValueSchema)
  | pid (marker : ErrorValueSchema)
  | processMarker (name : String)
  | named (name : String) (arguments : List ErrorValueSchema)
  | struct (name : String) (arguments fields : List ErrorValueSchema)
  | enum (name : String) (arguments : List ErrorValueSchema) (variants : List ErrorVariantSchema)
  | hashMap (item : ErrorValueSchema)
  | recursive (name : String) (arguments : List ErrorValueSchema)
  | errorKind

inductive ErrorVariantSchema where
  | mk (name : String) (tag : Nat) (discriminant : Int) (fields : List ErrorValueSchema)
end

structure ErrTemplate where
  id : Nat
  kind : String
  constructorFunIdx : Nat
  inputTypes : List ErrorValueSchema
  payloadFields : List (String × ErrorValueSchema)

structure DbgArgTemplate where
  spanStart : Nat
  spanEnd : Nat
  tyName : String
  deriving DecidableEq

structure DbgTemplate where
  id : Nat
  spanStart : Nat
  spanEnd : Nat
  sourceName : Option String
  args : List DbgArgTemplate
  deriving DecidableEq

inductive DocKind where
  | module | type | function
  deriving DecidableEq

structure DocEntry where
  qualifiedName : String
  kind : DocKind
  modulePath : String
  signature : Option String
  doc : String
  deriving DecidableEq

structure SignatureEntry where
  qualifiedName : String
  kind : DocKind
  modulePath : String
  signature : String
  deriving DecidableEq

inductive RuntimeProcessKind where
  | agent | genServer | supervisor | runtimeSupervisor | dynamicSupervisor | task
  deriving DecidableEq

inductive RuntimeProcessInstance where
  | singleton | worker
  deriving DecidableEq

inductive RuntimeInitPolicy where
  | eager | standby
  deriving DecidableEq

inductive RuntimeInitResultShape where
  | eagerState (resultType : String)
  | standbyProcessInit (resultType : String)
  deriving DecidableEq

/-- `RuntimeInitSpec`; `funIdx` is `callable.fun_idx`. -/
structure RuntimeInitSpec where
  funIdx : Nat
  policy : RuntimeInitPolicy
  resultShape : RuntimeInitResultShape
  stateType : String
  initRoute : Option String
  deriving DecidableEq

inductive RuntimeHandlerKind where
  | init | get | set | call | cast
  deriving DecidableEq

structure RuntimeHandlerSpec where
  handlerId : Nat
  name : String
  kind : RuntimeHandlerKind
  funIdx : Nat
  arity : Nat
  deriving DecidableEq

structure RuntimeHandlerTarget where
  name : String
  namedArgs : List (String × String)
  deriving DecidableEq

structure RuntimeHandlerDependency where
  slot : String
  capability : String
  defaultTarget : RuntimeHandlerTarget
  deriving DecidableEq

structure RuntimeLifecycleSpec where
  owner : Option String := none
  exitSink : Option String := none
  restartTarget : Option String := none
  deriving DecidableEq

structure RuntimeSupervisorPolicy where
  strategy : String
  maxRestarts : Nat
  maxSeconds : Nat
  childRestartDefault : String
  allowAdopt : Bool
  shutdownTimeoutMs : Option Nat
  deriving DecidableEq

structure RuntimeSupervisionSpec where
  parent : Option String := none
  children : List String := []
  policy : Option RuntimeSupervisorPolicy := none
  deriving DecidableEq

structure RuntimeProcessSpec where
  processId : Nat
  typeName : String
  kind : RuntimeProcessKind
  inst : RuntimeProcessInstance
  stateType : String
  init : RuntimeInitSpec
  handlers : List RuntimeHandlerSpec
  dependencies : List RuntimeHandlerDependency
  lifecycle : RuntimeLifecycleSpec
  supervision : RuntimeSupervisionSpec
  deriving DecidableEq

inductive BootEntrySource where
  | explicitConfig | builtinStandardIo
  deriving DecidableEq

structure SingletonBootEntry where
  processName : String
  initTimeoutMs : Nat
  source : BootEntrySource
  deriving DecidableEq

structure StandardOverrideEntry where
  standardName : String
  handlerTarget : RuntimeHandlerTarget
  deriving DecidableEq

structure RuntimeHandlerOverride where
  targetProcess : String
  slot : String
  handlerTarget : RuntimeHandlerTarget
  deriving DecidableEq

structure RuntimeSupervisorOverrideEntry where
  processName : String
  policy : RuntimeSupervisorPolicy
  deriving DecidableEq

structure RuntimeLimitConfig where
  defaultInitTimeoutMs : Nat := 5000
  minInitTimeoutMs : Nat := 1
  maxInitTimeoutMs : Nat := 60000
  pendingInitialRetryMs : Nat := 10
  pendingMaxRetryMs : Nat := 1000
  minSchedulerTickMs : Nat := 1
  deriving DecidableEq

@[ext]
structure RuntimeBootPlan where
  root : Option String := none
  singletons : List SingletonBootEntry := []
  standardOverrides : List StandardOverrideEntry := []
  handlerOverrides : List RuntimeHandlerOverride := []
  supervisorOverrides : List RuntimeSupervisorOverrideEntry := []
  runtimeLimits : RuntimeLimitConfig := {}
  deriving DecidableEq

/-- Name and arity of one builtin function; the verifier and the import table
read the builtin metadata only through its position. -/
structure BuiltinMeta where
  name : String
  arity : Nat
  deriving DecidableEq

def builtinMetaById (metas : List BuiltinMeta) (builtinId : Nat) : Option BuiltinMeta :=
  metas[builtinId]?

end Surtr.Sindr
