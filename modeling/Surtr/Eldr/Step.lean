import Surtr.Eldr.Execute

/-!
# Steps of a context (`eldr/src/vm/continuation.rs`, `eldr/src/vm.rs`)

A step either runs one instruction or moves the builtin work on top of it.
-/

namespace Surtr.Eldr
open Surtr.Sindr Surtr.Lib
open Eff (attempt exec exec_bind_ok exec_reads exec_step reads step update)

inductive ExecutionTarget where
  | topLevel
  | frameDepth (depth : Nat)
  deriving DecidableEq

inductive StepOutcome where
  | continue
  | halt (value : Value)
  | pending (futureId : Nat)
  | runtimeError (error : RuntimeError)

section Step
variable {W K : Type} (host : Host W K) (bytecode : Bytecode)

def setPending (invocation : Except RuntimeError (Invocation K)) : Exec W K Unit :=
  update fun m => { m with pendingInvocation := some invocation }

def callableForFunction (funIdx : Nat) : Callable :=
  .mk (.function funIdx) [] (host.callableMetadata bytecode (.function funIdx))

def directCallable : CallableTemplateDirectTarget → Callable
  | .function funIdx => callableForFunction host bytecode funIdx
  | .builtin id => .mk (.builtin id) [] {}

/-- `compiler_global_error_kind`; builtins pass unqualified names only. -/
def compilerGlobalErrorKind (kind : String) : String :=
  String.ofList (implicitRootNamespacePrefix ++ kind.toList)

def errorConstructorCall (kind : String) (args : List Value) (wrapper : Option Nat)
    (location : Location) (after : Option K) : Except RuntimeError (BuiltinOutcome K) :=
  match bytecode.errorTemplates.filter (fun template => template.kind == kind) with
  | [] => .error (.exec (.errorConstructor "unresolved Error constructor" kind))
  | [template] =>
    if template.inputTypes.length ≠ args.length ∨ (template.inputTypes.zip args).all
          (fun p => host.schemaAccepts bytecode.typeRegistry p.1 p.2) = false then
      .error (.exec (.errorConstructor "Error constructor input contract mismatch for" kind))
    else
      .ok (.call (callableForFunction host bytecode template.constructorFunIdx) args
        (.errorConstruction kind location wrapper after))
  | _ => .error (.exec (.errorConstructor "duplicate Error constructor" kind))

def languageErrorOutcomeAt (kind : String) (args : List Value) (wrapper : Option Nat)
    (location : Location) (after : Option K) : Except RuntimeError (BuiltinOutcome K) :=
  errorConstructorCall host bytecode (compilerGlobalErrorKind kind) args wrapper location after

def runtimeErrorLocation (m : Machine W K) : Option Location :=
  match m.frames with
  | [] => none
  | frame :: _ => frame.callSite.bind fun site =>
    host.locationForSpan bytecode m.world site.1 site.2 "<runtime>"

def interpretReply : HostReply K → Exec W K (BuiltinOutcome K)
  | .outcome outcome => pure outcome
  | .languageError kind args wrapper (some location) after =>
    Eff.liftExcept (languageErrorOutcomeAt host bytecode kind args wrapper location after)
  | .languageError kind args wrapper none after => do
    match ← reads (runtimeErrorLocation host bytecode) with
    | none => fail (.errorConstruction "Error generation has no source context")
    | some location =>
      Eff.liftExcept (languageErrorOutcomeAt host bytecode kind args wrapper location after)

def callOrigin (m : Machine W K) : CallOrigin where
  current := m.frames.head?.bind CallFrame.callSite
  previous := m.continuations.head?.bind fun frame => match frame.destination with
    | .stack _ site => site
    | .builtin _ => none

def callBuiltin (builtinId : Nat) (args : List Value) : Exec W K (BuiltinOutcome K) := do
  let reply ← step fun m =>
    let answer := host.callBuiltin bytecode (callOrigin m) m.world builtinId args
    (answer.1, { m with world := answer.2 })
  interpretReply host bytecode reply

def resumeHost (k : K) (result : Except RuntimeError Value) : Exec W K (BuiltinOutcome K) := do
  let reply ← step fun m =>
    let answer := host.resume bytecode (callOrigin m) m.world k result
    (answer.1, { m with world := answer.2 })
  interpretReply host bytecode reply

def constructError (kind : String) (location : Location) (wrapper : Option Nat)
    (result : Except RuntimeError Value) : Except RuntimeError Value := do
  match ← result with
  | .error error =>
    if error.kind ≠ kind then
      throw (.exec (.errorConstruction "Error constructor returned a different declaration"))
    let value : Value := .error (error.withLocation location)
    match wrapper with
    | none => pure value
    | some 1 => pure (.tagged 1 [value])
    | some tag =>
      match bytecode.typeRegistry.lookup tag with
      | none => throw (.exec (.errorConstruction "missing MatchResult wrapper metadata"))
      | some entry =>
        match matchResultVariantMeta entry.name with
        | some ⟨_, _, true⟩ =>
          pure (.tagged tag [.int matchResultErrVariant.discriminant, value])
        | _ => throw (.exec (.errorConstruction "noncanonical Error wrapper"))
  | _ => throw (.exec (.errorConstruction "Error constructor did not return Error"))

def resumeContinuation (continuation : BuiltinContinuation K)
    (result : Except RuntimeError Value) : Exec W K (BuiltinOutcome K) :=
  match continuation with
  | .identity => Eff.liftExcept (result.map .complete)
  | .compose rhs => do
    let value ← Eff.liftExcept result
    pure (.call rhs [value] .identity)
  | .errorConstruction kind location wrapper after =>
    let constructed := constructError bytecode kind location wrapper result
    match after with
    | some k => resumeHost host bytecode k constructed
    | none => Eff.liftExcept (constructed.map .complete)
  | .host k => resumeHost host bytecode k result

def templateArgs (templateId : Nat) (captures args : List Value) :
    List CallableTemplateArg → Except RuntimeError (List Value)
  | [] => .ok []
  | source :: rest => do
    let value ← match source with
      | .bound i => match captures[i]? with
        | some value => .ok value
        | none => .error (.exec (.templateArg templateId "bound" i))
      | .runtime i => match args[i]? with
        | some value => .ok value
        | none => .error (.exec (.templateArg templateId "runtime" i))
    let values ← templateArgs templateId captures args rest
    .ok (value :: values)

def templateInvocation (templateId : Nat) (captures args : List Value) :
    Except RuntimeError (Invocation K) := do
  let template ← callableTemplate bytecode templateId
  match template.kind with
  | .partialDirectCall target argSources =>
    let full ← templateArgs templateId captures args argSources
    .ok (.callable (directCallable host bytecode target) full)
  | .injectDirectCall target boundArgCount =>
    match args with
    | [] => .error (.exec (.templateArity templateId "at least one runtime argument"))
    | first :: rest =>
      if captures.length < boundArgCount then .error (.exec .templateBoundCount)
      else .ok (.callable (directCallable host bytecode target)
        (first :: (captures.take boundArgCount ++ rest)))
  | .composeDirect =>
    if args.length ≠ 1 then .error (.exec (.templateArity templateId "one runtime argument"))
    else match captures with
      | .callable lhs :: rest =>
        match rest with
        | .callable rhs :: _ => .ok (.builtin (.call lhs args (.compose rhs)))
        | _ => .error (.exec (.templateCapture templateId "rhs"))
      | _ => .error (.exec (.templateCapture templateId "lhs"))

def functionInvocation (funIdx : Nat) (full : List Value) : Exec W K Unit := do
  let entry ← Eff.liftExcept (functionEntry bytecode funIdx)
  if full.length ≠ entry.arity then fail (.callArity funIdx entry.arity full.length)
  if entry.entryPc ≥ bytecode.opcodes.length then fail (.functionEntryPc funIdx entry.entryPc)
  let locals ← Eff.liftExcept (buildLocalsForCall entry full)
  let frame ← currentFrame
  step fun m => match m.continuations with
    | [] => (.error (.exec (.noDestination "callable has no return destination")), m)
    | continuation :: rest =>
      (.ok (), { m with
        continuations := { continuation with waitingFunction := true } :: rest
        frames := { returnPc := continuation.resumePc, stackBase := m.stack.length,
                    callSite := frame.callSite, locals := locals } :: m.frames
        pc := entry.entryPc })

def callableInvocation (callable : Callable) (args : List Value) : Exec W K Unit :=
  match callable.target with
  | .builtin id => do
    let outcome ← attempt (callBuiltin host bytecode id (callable.lexicalCaptures ++ args))
    setPending (outcome.map .builtin)
  | .function funIdx => functionInvocation bytecode funIdx (callable.lexicalCaptures ++ args)
  | .template templateId => do
    let action ← Eff.liftExcept
      (templateInvocation host bytecode templateId callable.lexicalCaptures args)
    setPending (.ok action)

/-- `cancelled_result`; the secondary failure is kept in the report only. -/
def cancelledResult {α : Type} (cancellation : Option RuntimeError)
    (result : Except RuntimeError α) : Except RuntimeError α :=
  match cancellation with
  | none => result
  | some original => .error original

def pushBuiltinContinuation (continuation : BuiltinContinuation K) : Exec W K Unit :=
  update fun m => { m with continuations :=
    { destination := .builtin continuation, frameDepth := m.frames.length,
      stackBase := m.stack.length, resumePc := m.pc } :: m.continuations }

def waitOnTop (futureId : Nat) : Exec W K Unit :=
  step fun m => match m.continuations with
    | [] => (.error (.exec (.noDestination "missing future return destination")), m)
    | frame :: rest =>
      (.ok (), { m with continuations := { frame with waitingFuture := some futureId } :: rest })

def popped (m : Machine W K) (frame : ContinuationFrame K) (rest : List (ContinuationFrame K)) :
    Machine W K :=
  { m with
    continuations := rest
    frames := truncateTo frame.frameDepth m.frames
    stack := truncateTo frame.stackBase m.stack
    pc := frame.resumePc }

def popContinuation : Exec W K (ReturnDestination K) :=
  step fun m => match m.continuations with
    | [] => (.error (.exec (.noDestination "missing continuation return destination")), m)
    | frame :: rest => (.ok frame.destination, popped m frame rest)

/-- The second half of `deliver_continuation`: where the result goes. -/
def deliver (cancellation : Option RuntimeError) (result : Except RuntimeError Value) :
    ReturnDestination K → Exec W K Unit
  | .builtin continuation => do
    let resumed ← attempt
      (resumeContinuation host bytecode continuation (cancelledResult cancellation result))
    setPending (cancelledResult cancellation (resumed.map .builtin))
  | .stack tail previousSite => do
    modifyFrame fun frame => { frame with callSite := previousSite }
    let value ← Eff.liftExcept (cancelledResult cancellation result)
    if tail then
      let returnPc ← returnFromCurrentFrame value
      update fun m => { m with pc := returnPc }
    else pushStack value

def deliverContinuation (result : Except RuntimeError Value) : Exec W K Unit := do
  let cancellation ← reads Machine.cancellation
  let destination ← popContinuation
  deliver host bytecode cancellation result destination

def dispatchInvocation : Except RuntimeError (Invocation K) → Exec W K Unit
  | .ok (.callable callable args) => callableInvocation host bytecode callable args
  | .ok (.builtin (.call callable args continuation)) => do
    pushBuiltinContinuation continuation
    setPending (.ok (.callable callable args))
  | .ok (.builtin (.resume continuation)) => do
    let outcome ← attempt (resumeContinuation host bytecode continuation (.ok .unit))
    setPending (outcome.map .builtin)
  | .ok (.builtin (.wait futureId continuation)) => do
    pushBuiltinContinuation continuation
    waitOnTop futureId
  | .ok (.builtin (.complete (.pendingFuture futureId))) => waitOnTop futureId
  | .ok (.builtin (.complete value)) => deliverContinuation host bytecode (.ok value)
  | .error error => do
    let continuations ← reads Machine.continuations
    if continuations.isEmpty then throw error
    else deliverContinuation host bytecode (.error error)

/-- The first half of `step_continuation`: the result the innermost continuation waits
for is fetched. `some` is an early return. -/
def fetchResult : Exec W K (Option StepOutcome) := do
  let continuations ← reads Machine.continuations
  match continuations with
  | [] => fail (.noDestination "missing continuation return destination")
  | frame :: rest =>
    match frame.waitingFuture with
    | some futureId =>
      match ← reads (fun m => host.readyFutureValue m.world futureId) with
      | some value =>
        update fun m => { m with
          continuations := { frame with waitingFuture := none } :: rest
          world := host.releaseInternalProcessFuture m.world futureId }
        setPending (.ok (.builtin (.complete value)))
        pure none
      | none => pure (some (.pending futureId))
    | none =>
      update fun m => { m with
        continuations := { frame with waitingFunction := false } :: rest }
      let value ← attempt popStack
      setPending (value.map fun v => .builtin (.complete v))
      pure none

variable (target : ExecutionTarget)

def completeExecutionTarget : Exec W K (Option Value) := do
  match target with
  | .topLevel => pure none
  | .frameDepth depth =>
    let frames ← reads Machine.frames
    if frames.length = depth then
      let value ← popStack
      pure (some value)
    else pure none

def takePending : Exec W K (Except RuntimeError (Invocation K)) :=
  step fun m => match m.pendingInvocation with
    | none => (.error (.exec (.noDestination "missing pending invocation")), m)
    | some invocation => (.ok invocation, { m with pendingInvocation := none })

def raise (error : RuntimeError) (m : Machine W K) : StepOutcome × Machine W K :=
  if m.continuations.isEmpty then (.runtimeError error, m)
  else (.continue, { m with pendingInvocation := some (.error error) })

def finishStep (m : Machine W K) : StepOutcome × Machine W K :=
  match exec (completeExecutionTarget target) m with
  | (.ok (some value), m') => (.halt value, m')
  | (.ok none, m') => (.continue, m')
  | (.error error, m') => (.runtimeError error, m')

/-- The end of `step_continuation`, after the invocation has been dispatched. -/
def afterDispatch : Except RuntimeError Unit × Machine W K → StepOutcome × Machine W K
  | (.error error, m) => raise error m
  | (.ok _, m) =>
    if m.continuations.isEmpty ∧ m.pendingInvocation.isNone then finishStep target m
    else (.continue, m)

def dispatchTo (invocation : Except RuntimeError (Invocation K)) (m : Machine W K) :
    StepOutcome × Machine W K :=
  afterDispatch target (exec (dispatchInvocation host bytecode invocation) m)

def stepContinuation (m : Machine W K) : StepOutcome × Machine W K :=
  let fetched := if m.pendingInvocation.isNone then exec (fetchResult host) m
    else (.ok none, m)
  match fetched with
  | (.error error, m₁) => (.runtimeError error, m₁)
  | (.ok (some outcome), m₁) => (outcome, m₁)
  | (.ok none, m₁) =>
    match exec takePending m₁ with
    | (.error error, m₂) => (.runtimeError error, m₂)
    | (.ok invocation, m₂) => dispatchTo host bytecode target invocation m₂

def continuationReady (m : Machine W K) : Bool :=
  m.pendingInvocation.isSome || match m.continuations with
    | [] => false
    | frame :: _ =>
      frame.waitingFuture.isSome ||
        (frame.waitingFunction && decide (m.frames.length = frame.frameDepth))

def lookUp (world : W) : Value → Value
  | .pendingFuture futureId =>
    (host.readyFutureValue world futureId).getD (.pendingFuture futureId)
  | v => v

def resolveReadyPendingStackValues (m : Machine W K) : Machine W K :=
  { m with stack := m.stack.map (lookUp host m.world) }

def goOn (m : Machine W K) : StepOutcome × Machine W K :=
  if m.continuations.isEmpty then finishStep target m else (.continue, m)

/-- One instruction in `step_active_context`. A context that suspends keeps the
address to resume at as its program counter. -/
def stepInstruction (program : Exec W K OpcodeControl) (m : Machine W K) :
    StepOutcome × Machine W K :=
  match exec program (resolveReadyPendingStackValues host m) with
  | (.error error, m₁) => raise error m₁
  | (.ok (.next pc), m₁) => goOn target { m₁ with pc := pc }
  | (.ok .halt, m₁) =>
    let m₂ := { m₁ with pc := m.pc + 1 }
    if m₂.continuations.isEmpty then (.halt (m₂.stack.headD .unit), m₂)
    else (.continue, { m₂ with pendingInvocation := some (.error (.exec .haltInContinuation)) })
  | (.ok (.pending futureId resumePc), m₁) => (.pending futureId, { m₁ with pc := resumePc })

def stepActiveContext (m : Machine W K) : StepOutcome × Machine W K :=
  if continuationReady m then stepContinuation host bytecode target m
  else match bytecode.opcodes[m.pc]? with
    | none => raise (.exec .pcOutOfBounds) m
    | some op => stepInstruction host target (executeOpcode host bytecode op (m.pc + 1)) m

def cancelExecutionContext (error : RuntimeError) (m : Machine W K) : Machine W K :=
  let continuation : Option (BuiltinContinuation K) := match m.pendingInvocation with
    | some (.ok (.builtin (.call _ _ continuation))) => some continuation
    | some (.ok (.builtin (.wait _ continuation))) => some continuation
    | some (.ok (.builtin (.resume continuation))) => some continuation
    | _ => none
  let continuations := match continuation with
    | some continuation =>
      { destination := .builtin continuation, frameDepth := m.frames.length,
        stackBase := m.stack.length, resumePc := m.pc } :: m.continuations
    | none => m.continuations
  { m with
    continuations := continuations
    cancellation := some error
    pendingInvocation := some (.error error) }

def GoesOn (outcome : StepOutcome) : Prop := outcome = .continue ∨ ∃ id, outcome = .pending id

theorem not_goesOn_runtimeError {error : RuntimeError} : ¬GoesOn (.runtimeError error) := by
  rintro (h | ⟨id, h⟩) <;> cases h

def calleeResult : List Value → Except RuntimeError (Invocation K)
  | [] => .error (.exec .stackUnderflow)
  | value :: _ => .ok (.builtin (.complete value))

variable {host bytecode} {target : ExecutionTarget} {m : Machine W K}
  {frame : ContinuationFrame K} {rest : List (ContinuationFrame K)}

theorem stepContinuation_of_pending {invocation : Except RuntimeError (Invocation K)}
    (h : m.pendingInvocation = some invocation) : stepContinuation host bytecode target m =
      dispatchTo host bytecode target invocation { m with pendingInvocation := none } := by
  simp only [stepContinuation, h, Option.isNone_some, takePending, exec_step,
    Bool.false_eq_true, if_false]

theorem stepContinuation_of_fetched {fetched : Machine W K}
    {invocation : Except RuntimeError (Invocation K)} (hpend : m.pendingInvocation = none)
    (hfetch : exec (fetchResult host) m = (.ok none, fetched))
    (htaken : fetched.pendingInvocation = some invocation) :
    stepContinuation host bytecode target m =
      dispatchTo host bytecode target invocation { fetched with pendingInvocation := none } := by
  simp only [stepContinuation, hpend, Option.isNone_none, if_true, hfetch, takePending, exec_step,
    htaken]

theorem exec_popContinuation (hcons : m.continuations = frame :: rest) :
    exec popContinuation m = (.ok frame.destination, popped m frame rest) := by
  rw [popContinuation, exec_step, hcons]

theorem exec_popContinuation_nil (hnil : m.continuations = []) : exec popContinuation m =
    (.error (.exec (.noDestination "missing continuation return destination")), m) := by
  rw [popContinuation, exec_step, hnil]

/-! With nothing pending, the innermost continuation waits for a future or for a
callback. -/

section
variable (hpend : m.pendingInvocation = none) (hcons : m.continuations = frame :: rest)
include hpend hcons

theorem stepContinuation_of_ready {futureId : Nat} {value : Value}
    (hwaits : frame.waitingFuture = some futureId)
    (hready : host.readyFutureValue m.world futureId = some value) :
    stepContinuation host bytecode target m =
      dispatchTo host bytecode target (.ok (.builtin (.complete value))) { m with
        continuations := { frame with waitingFuture := none } :: rest
        world := host.releaseInternalProcessFuture m.world futureId
        pendingInvocation := none } := by
  have hfetch : exec (fetchResult host) m = (.ok none, { m with
      continuations := { frame with waitingFuture := none } :: rest
      world := host.releaseInternalProcessFuture m.world futureId
      pendingInvocation := some (.ok (.builtin (.complete value))) }) := by
    rw [fetchResult, exec_bind_ok (exec_reads _ _), hcons]
    dsimp only
    rw [hwaits]
    dsimp only
    rw [exec_bind_ok (exec_reads _ _), hready]
    rfl
  exact stepContinuation_of_fetched hpend hfetch rfl

theorem stepContinuation_of_waiting {futureId : Nat} (hwaits : frame.waitingFuture = some futureId)
    (hready : host.readyFutureValue m.world futureId = none) :
    stepContinuation host bytecode target m = (.pending futureId, m) := by
  have hfetch : exec (fetchResult host) m = (.ok (some (.pending futureId)), m) := by
    rw [fetchResult, exec_bind_ok (exec_reads _ _), hcons]
    dsimp only
    rw [hwaits]
    dsimp only
    rw [exec_bind_ok (exec_reads _ _), hready]
    rfl
  simp only [stepContinuation, hpend, Option.isNone_none, if_true, hfetch]

theorem stepContinuation_of_callee (hwaits : frame.waitingFuture = none) :
    stepContinuation host bytecode target m =
      dispatchTo host bytecode target (calleeResult m.stack) { m with
        continuations := { frame with waitingFunction := false } :: rest
        stack := m.stack.tail
        pendingInvocation := none } := by
  have hfetch : exec (fetchResult host) m = (.ok none, { m with
      continuations := { frame with waitingFunction := false } :: rest
      stack := m.stack.tail
      pendingInvocation := some (calleeResult m.stack) }) := by
    rw [fetchResult, exec_bind_ok (exec_reads _ _), hcons]
    dsimp only
    rw [hwaits]
    dsimp only
    rw [exec_bind_ok (Eff.exec_update _ _), exec_bind_ok (Eff.exec_attempt _ _), popStack,
      exec_step]
    cases hstk : m.stack with
    | nil => rfl
    | cons top stack => rfl
  exact stepContinuation_of_fetched hpend hfetch rfl

end

end Step

end Surtr.Eldr
