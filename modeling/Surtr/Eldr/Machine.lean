import Surtr.Eldr.Verify
import Surtr.Lib.Effect

/-!
# The machine (`eldr/src/vm.rs`, `eldr/src/vm/continuation.rs`)

Vectors used as stacks are lists with the top first. Builtins, the process runtime
and input and output are the `Host`, with state `W` and continuations `K`.
-/

namespace Surtr.Eldr
open Surtr.Sindr Surtr.Lib

abbrev CallSite := Option (Nat × Nat)

/-- `CallFrame`; the trace frame kept for reports is left out. -/
structure CallFrame where
  returnPc : Nat
  stackBase : Nat
  callSite : CallSite
  locals : List Value

/-- `BuiltinContinuation`: the ones the machine itself builds or inspects, and
the host's own. -/
inductive BuiltinContinuation (K : Type) where
  | identity
  | compose (rhs : Callable)
  | errorConstruction (kind : String) (location : Location) (wrapper : Option Nat)
      (after : Option K)
  | host (k : K)

inductive BuiltinOutcome (K : Type) where
  | complete (value : Value)
  | call (callable : Callable) (args : List Value) (continuation : BuiltinContinuation K)
  | resume (continuation : BuiltinContinuation K)
  | wait (futureId : Nat) (continuation : BuiltinContinuation K)

inductive Invocation (K : Type) where
  | callable (callable : Callable) (args : List Value)
  | builtin (outcome : BuiltinOutcome K)

inductive ReturnDestination (K : Type) where
  | stack (tail : Bool) (previousSite : CallSite)
  | builtin (continuation : BuiltinContinuation K)

structure ContinuationFrame (K : Type) where
  destination : ReturnDestination K
  frameDepth : Nat
  stackBase : Nat
  resumePc : Nat
  waitingFunction : Bool := false
  waitingFuture : Option Nat := none

@[ext]
structure Machine (W K : Type) where
  stack : List Value
  frames : List CallFrame
  continuations : List (ContinuationFrame K)
  pendingInvocation : Option (Except RuntimeError (Invocation K))
  cancellation : Option RuntimeError
  pc : Nat
  world : W

/-- What a builtin or a host continuation asks for. `languageError` is a call
of `language_error_outcome_at`, with the location it passes if it passes one. -/
inductive HostReply (K : Type) where
  | outcome (outcome : BuiltinOutcome K)
  | languageError (kind : String) (args : List Value) (wrapper : Option Nat)
      (location : Option Location) (after : Option K)

structure CallOrigin where
  current : CallSite
  previous : CallSite

structure Host (W K : Type) where
  metas : List BuiltinMeta
  callableMetadata : Bytecode → CallableTarget → CallableMetadata
  schemaAccepts : TypeRegistry → ErrorValueSchema → Value → Bool
  displayString : TypeRegistry → Value → Except String String
  locationForSpan : Bytecode → W → Nat → Nat → String → Option Location
  renderDbg : Bytecode → W → DbgTemplate → List Value → Except String (List String)
  emitStderrLine : W → String → W
  specByProcessName : W → String → Option RuntimeProcessSpec
  readyFutureValue : W → Nat → Option Value
  releaseInternalProcessFuture : W → Nat → W
  callBuiltin : Bytecode → CallOrigin → W → Nat → List Value → Except RuntimeError (HostReply K) × W
  resume : Bytecode → CallOrigin → W → K → Except RuntimeError Value →
    Except RuntimeError (HostReply K) × W

def truncateTo {α : Type} (len : Nat) (xs : List α) : List α := xs.drop (xs.length - len)

theorem mem_of_mem_truncateTo {α : Type} {len : Nat} {xs : List α} {x : α}
    (h : x ∈ truncateTo len xs) : x ∈ xs := List.mem_of_mem_drop h

abbrev Exec (W K α : Type) := Eff RuntimeError (Machine W K) α

section Helpers
variable {W K : Type}

def fail {α : Type} (e : ExecError) : Exec W K α := throw (.exec e)

def pushStack (v : Value) : Exec W K Unit :=
  Eff.update fun m => { m with stack := v :: m.stack }

def popStack : Exec W K Value :=
  Eff.step fun m => match m.stack with
    | [] => (.error (.exec .stackUnderflow), m)
    | v :: rest => (.ok v, { m with stack := rest })

def popMany : Nat → List Value → Exec W K (List Value)
  | 0, acc => pure acc
  | n + 1, acc => do
    let v ← popStack
    popMany n (v :: acc)

def popArgs (n : Nat) : Exec W K (List Value) := popMany n []

def currentFrame : Exec W K CallFrame :=
  Eff.step fun m => match m.frames with
    | [] => (.error (.exec .frameStackUnderflow), m)
    | frame :: _ => (.ok frame, m)

def modifyFrame (f : CallFrame → CallFrame) : Exec W K Unit :=
  Eff.step fun m => match m.frames with
    | [] => (.error (.exec .frameStackUnderflow), m)
    | frame :: rest => (.ok (), { m with frames := f frame :: rest })

theorem exec_currentFrame {α : Type} {m : Machine W K} {frame : CallFrame}
    {frames : List CallFrame} {f : CallFrame → Exec W K α} (h : m.frames = frame :: frames) :
    Eff.exec (currentFrame >>= f) m = Eff.exec (f frame) m := by
  refine Eff.exec_bind_ok ?_
  rw [currentFrame, Eff.exec_step, h]

theorem exec_modifyFrame {m : Machine W K} {frame : CallFrame} {frames : List CallFrame}
    {f : CallFrame → CallFrame} (h : m.frames = frame :: frames) :
    Eff.exec (modifyFrame f) m = (.ok (), { m with frames := f frame :: frames }) := by
  rw [modifyFrame, Eff.exec_step, h]

def setLocal (slot : Nat) (v : Value) : Exec W K Unit :=
  modifyFrame fun frame => { frame with locals := frame.locals.set slot v }

def popInt : Exec W K Int := do
  match ← popStack with
  | .int n => pure n
  | other => fail (.expected "Int" other)

def popTag : Exec W K Nat := do
  match ← popStack with
  | .tag t => pure t
  | other => fail (.expected "Tag" other)

def popFloat : Exec W K Float := do
  match ← popStack with
  | .float x => if x.isFinite then pure x.toFloat else fail .expectedFiniteFloat
  | other => fail (.expected "Float" other)

def popStr : Exec W K String := do
  match ← popStack with
  | .str s => pure s
  | other => fail (.expected "Str" other)

def popBool : Exec W K Bool := do
  match ← popStack with
  | .bool b => pure b
  | other => fail (.expected "Bool" other)

def popError (what : String) : Exec W K RichError := do
  match ← popStack with
  | .error e => pure e
  | _ => fail (.requiresError what)

def popList (what : String) : Exec W K (List Value) := do
  match ← popStack with
  | .list items => pure items
  | other => fail (.operandKind what other)

def finiteFloatValue (x : F64) (opName : String) : Except RuntimeError Value :=
  if x.isFinite then .ok (.float x)
  else if opName = "LoadConst" then .error (.exec .nonFiniteConstant)
  else .error (.exec (.nonFiniteFloat opName))

def intBinop (f : Int → Int → Value) : Exec W K Unit := do
  let b ← popInt
  let a ← popInt
  pushStack (f a b)

def floatBinop (opName : String) (f : Float → Float → Float) : Exec W K Unit := do
  let b ← popFloat
  let a ← popFloat
  let v ← Eff.liftExcept (finiteFloatValue (F64.ofFloat (f a b)) opName)
  pushStack v

def floatPredicate (f : Float → Float → Bool) : Exec W K Unit := do
  let b ← popFloat
  let a ← popFloat
  pushStack (.bool (f a b))

def strPredicate (f : String → String → Bool) : Exec W K Unit := do
  let b ← popStr
  let a ← popStr
  pushStack (.bool (f a b))

def boolPredicate (f : Bool → Bool → Bool) : Exec W K Unit := do
  let b ← popBool
  let a ← popBool
  pushStack (.bool (f a b))

end Helpers

variable (bytecode : Bytecode)

def constantValue (idx : Nat) : Except RuntimeError Value :=
  match bytecode.constants[idx]? with
  | none => .error (.exec (.constIndex idx))
  | some (.int n) => .ok (.int n)
  | some (.tag t) => .ok (.tag t)
  | some (.float x) => finiteFloatValue x "LoadConst"
  | some (.str s) => .ok (.str s)
  | some (.bool b) => .ok (.bool b)
  | some .unit => .ok .unit
  | some (.errorKind kind) =>
    if bytecode.errorTemplates.any (fun template => template.kind == kind) then
      .ok (.errorKind kind)
    else .error (.exec (.unknownErrorKind kind))

def constantTag (idx : Nat) : Except RuntimeError Nat := do
  match ← constantValue bytecode idx with
  | .tag t => .ok t
  | other => .error (.exec (.expected "Tag" other))

def functionEntry (funIdx : Nat) : Except RuntimeError FunctionEntry :=
  match bytecode.functions[funIdx]? with
  | none => .error (.exec (.unknownFunctionIndex funIdx))
  | some entry =>
    if entry.funIdx = funIdx then .ok entry
    else .error (.exec (.functionTableInvariant funIdx entry.funIdx))

def validateJumpTarget (addr : Nat) : Except RuntimeError Nat :=
  if addr < bytecode.opcodes.length then .ok addr else .error (.exec (.invalidJumpTarget addr))

def callableTemplate (templateId : Nat) : Except RuntimeError CallableTemplate :=
  match bytecode.callableTemplates.find? (fun template => template.templateId == templateId) with
  | some template => .ok template
  | none => .error (.exec (.unknownCallableTemplate templateId))

def matchResultFieldsOk (variant : MatchResultVariantMeta) : List Value → Bool
  | [.int n, .error _] => n == variant.discriminant
  | [.int n, _] => n == variant.discriminant && !variant.carriesError
  | _ => false

def validateMatchResultRepresentation (registry : TypeRegistry) (tag : Nat)
    (fields : List Value) : Except RuntimeError Unit :=
  match registry.lookup tag with
  | none => .ok ()
  | some entry => match matchResultVariantMeta entry.name with
    | none => .ok ()
    | some variant =>
      if entry.kind = .enumVariant ∧ matchResultFieldsOk variant fields = true then .ok ()
      else .error (.exec (.invalidMatchResult variant.qualifiedName))

def buildLocalsForCall (entry : FunctionEntry) (args : List Value) :
    Except RuntimeError (List Value) :=
  if entry.numLocals < args.length then
    .error (.exec (.localSlots entry.funIdx args.length entry.numLocals))
  else .ok (args ++ List.replicate (entry.numLocals - args.length) .unit)

end Surtr.Eldr
