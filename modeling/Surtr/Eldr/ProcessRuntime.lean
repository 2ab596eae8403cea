import Surtr.Lib.Table
import Surtr.Sindr.Value

/-!
# The process runtime (`eldr/src/vm.rs`, `vm/process_continuation.rs`)

Counters are natural numbers: the source gives up before an id could repeat.
Of the detached tasks those appear that deliver a future: the ones that complete
with `ErrorFuture`, and of the ones that complete with `Future(Some(id))` the id.
-/

namespace Surtr.Eldr.Runtime
open Surtr.Sindr Surtr.Lib

abbrev RuntimeTable (α : Type) := Std.TreeMap Nat α

def u64Max : Nat := 2 ^ 64 - 1

def saturatingAdd (a b : Nat) : Nat := min (a + b) u64Max

/-- A handle to a process. Handles that share the address of the identity
(`Rc::ptr_eq`) share its contents, so they are equal here. -/
structure PidRef where
  address : Nat
  id : Nat
  processName : String
  kind : PidKind
  deriving DecidableEq

inductive FutureState where
  | running
  | ready (value : Value)
  | cancelled (value : Value)

def FutureState.isRunning : FutureState → Bool
  | running => true
  | _ => false

structure FutureRecord where
  owner : Option Nat
  state : FutureState
  deadlineTick : Option Nat
  waiters : List Nat
  cancelOnTimeout : Bool
  correlationId : Option Nat
  creationContext : Option Location
  errorGenerationPending : Bool
  initDeadlineTimeout : Bool

structure DeadlineEntry where
  deadlineTick : Nat
  futureId : Nat
  deriving DecidableEq

inductive ProcessWaitReason where
  | future (id : Nat)
  | reply (correlationId : Nat)
  | boot
  deriving DecidableEq

inductive ProcessStatus where
  | runnable
  | waiting (reason : ProcessWaitReason)
  | completed
  | failed
  | restarting
  deriving DecidableEq

inductive ProcessAcceptance where
  | accepting
  | stopping
  deriving DecidableEq

inductive ProcessStopReason where
  | normal
  | error (error : RichError)

inductive ProcessExecutionStage where
  | handling
  | postprocessing
  | callback
  deriving DecidableEq

inductive ProcessMailboxMessage where
  | request (payload : Value)
  | reply (payload : Value)
  | cast (payload : Value)
  | systemBoot

structure ProcessInstance where
  pid : Nat
  specId : Nat
  identity : PidRef
  acceptance : ProcessAcceptance
  stopReason : Option ProcessStopReason
  status : ProcessStatus
  mailbox : List ProcessMailboxMessage
  stateValue : Option Value
  standbyStatePending : Bool

structure ProcessExecutionRecord where
  pid : PidRef
  parent : Option Nat
  stage : ProcessExecutionStage
  stored : Bool
  initialState : Option Value
  resultFuture : Nat
  internalFutures : List Nat
  origin : Location

/-- A detached task that completes with `ErrorFuture`. -/
structure ErrorTask where
  futureId : Nat
  kind : String
  args : List Value
  origin : Option Location
  waitingOn : Option Nat

/-- A task that delivers a future; an error task is named by its place. -/
inductive TaskRef where
  | delivery (futureId : Nat)
  | error (index : Nat)

/-- What `finish_handler_result` makes of a value and a cleanup: a value, a call
that constructs an error, or a failure of the VM. -/
inductive Delivery where
  | value (value : Value)
  | construct (task : ErrorTask)
  | failed

structure ProcessRuntime where
  currentTickMs : Nat := 0
  nextPid : Nat := 0
  nextFutureId : Nat := 0
  nextCorrelationId : Nat := 0
  nextExecutionId : Nat := 0
  specsById : List RuntimeProcessSpec := []
  processes : RuntimeTable ProcessInstance := ∅
  stoppedIdentities : RuntimeTable PidRef := ∅
  executions : RuntimeTable ProcessExecutionRecord := ∅
  futures : RuntimeTable FutureRecord := ∅
  replyTable : RuntimeTable Nat := ∅
  waitingTable : RuntimeTable ProcessWaitReason := ∅
  deadlineQueue : List DeadlineEntry := []
  runQueue : List Nat := []
  errorTasks : List ErrorTask := []
  deliveries : List Nat := []

def okVmResult (value : Value) : Value := .tagged 0 [value]

def isErrResult : Value → Bool
  | .tagged 1 [.error _] => true
  | _ => false

def rawReadyFutureValue (futures : RuntimeTable FutureRecord) (futureId : Nat) : Option Value :=
  futures[futureId]?.bind fun future => match future.state with
    | .ready value | .cancelled value => some value
    | .running => none

namespace ProcessRuntime

/-! ### Futures (`vm.rs:7042-7046`, `7155-7346`) -/

variable (rt : ProcessRuntime)

def enqueueRunnable (pid : Nat) : ProcessRuntime :=
  if pid ∈ rt.runQueue then rt else { rt with runQueue := rt.runQueue ++ [pid] }

def allocateFuture (owner : Option Nat) (deadlineTick : Option Nat)
    (cancelOnTimeout : Bool) : Nat × ProcessRuntime :=
  let futureId := rt.nextFutureId
  let future : FutureRecord :=
    { owner, state := .running, deadlineTick, waiters := [], cancelOnTimeout
      correlationId := none, creationContext := none
      errorGenerationPending := false, initDeadlineTimeout := false }
  (futureId,
    { rt with
      nextFutureId := futureId + 1
      deadlineQueue := match deadlineTick with
        | some deadlineTick => rt.deadlineQueue ++ [{ deadlineTick, futureId }]
        | none => rt.deadlineQueue
      futures := rt.futures.insert futureId future })

def allocateFutureAfter (owner : Option Nat) (delayMs : Nat)
    (cancelOnTimeout : Bool) : Nat × ProcessRuntime :=
  rt.allocateFuture owner (some (saturatingAdd rt.currentTickMs delayMs)) cancelOnTimeout

def FutureRecord.runningDeadline (future : FutureRecord) : Option Nat :=
  if future.state.isRunning then future.deadlineTick else none

def nextRunningDeadline : Option Nat :=
  (rt.futures.toList.filterMap fun (_, future) => FutureRecord.runningDeadline future).min?

def allocateCorrelationId : Nat × ProcessRuntime :=
  (rt.nextCorrelationId, { rt with nextCorrelationId := rt.nextCorrelationId + 1 })

def registerReplyWaiter (correlationId futureId : Nat) : ProcessRuntime :=
  let rt := { rt with replyTable := rt.replyTable.insert correlationId futureId }
  match rt.futures[futureId]? with
  | none => rt
  | some future =>
    { rt with
      futures := rt.futures.insert futureId { future with correlationId := some correlationId } }

def setProcessStatus (pid : Nat) (status : ProcessStatus) : ProcessRuntime :=
  match rt.processes[pid]? with
  | none => rt
  | some process => { rt with processes := rt.processes.insert pid { process with status } }

def addFutureWaiter (futureId pid : Nat) : ProcessRuntime :=
  match rt.futures[futureId]? with
  | none => rt
  | some future =>
    if pid ∈ future.waiters then rt
    else
      { rt with
        futures := rt.futures.insert futureId { future with waiters := future.waiters ++ [pid] } }

def markProcessWaiting (pid : Nat) (reason : ProcessWaitReason) : ProcessRuntime :=
  let rt := rt.setProcessStatus pid (.waiting reason)
  let rt := match reason with
    | .future futureId => rt.addFutureWaiter futureId pid
    | _ => rt
  { rt with waitingTable := rt.waitingTable.insert pid reason }

variable (futureId : Nat)

/-- `mark` is what the caller changes in the record besides. -/
def disarmFuture (future : FutureRecord) (mark : FutureRecord → FutureRecord) : ProcessRuntime :=
  { rt with
    futures := rt.futures.insert futureId
      { mark future with deadlineTick := none, cancelOnTimeout := false, correlationId := none }
    replyTable := match future.correlationId with
      | some correlationId => rt.replyTable.erase correlationId
      | none => rt.replyTable
    deadlineQueue := rt.deadlineQueue.filter fun entry => entry.futureId != futureId }

def wakeWaiter (waiter : Nat) : ProcessRuntime :=
  let rt := { rt with waitingTable := rt.waitingTable.erase waiter }
  if waiter ∈ rt.processes then (rt.setProcessStatus waiter .runnable).enqueueRunnable waiter
  else rt

def wakeFutureWaiters : List Nat × ProcessRuntime :=
  match rt.futures[futureId]? with
  | none => ([], rt)
  | some future =>
    if future.state.isRunning then ([], rt)
    else
      (future.waiters, future.waiters.foldl wakeWaiter
          { rt with futures := rt.futures.insert futureId { future with waiters := [] } })

def resolveFuture (value : Value) : List Nat × ProcessRuntime :=
  match rt.futures[futureId]? with
  | none => ([], rt)
  | some future =>
    if !future.state.isRunning || future.errorGenerationPending then ([], rt)
    else
      (rt.disarmFuture futureId future fun future => { future with state := .ready value })
        |>.wakeFutureWaiters futureId

def resolveReply (correlationId : Nat) (value : Value) : List Nat × ProcessRuntime :=
  match rt.replyTable[correlationId]? with
  | none => ([], rt)
  | some futureId =>
    { rt with replyTable := rt.replyTable.erase correlationId } |>.resolveFuture futureId value

def isRunning : Bool :=
  match rt.futures[futureId]? with
  | none => false
  | some future => future.state.isRunning

def takeCorrelation : ProcessRuntime :=
  match rt.futures[futureId]? with
  | none => rt
  | some future =>
    match future.correlationId with
    | none => rt
    | some correlationId =>
      { rt with
        futures := rt.futures.insert futureId { future with correlationId := none }
        replyTable := rt.replyTable.erase correlationId }

def collectLoop (nowTick : Nat) :
    List DeadlineEntry → ProcessRuntime → List Nat × List DeadlineEntry × ProcessRuntime
  | [], rt => ([], [], rt)
  | entry :: rest, rt =>
    if entry.deadlineTick ≤ nowTick then
      if rt.isRunning entry.futureId then
        let (expired, retained, rt) := collectLoop nowTick rest (rt.takeCorrelation entry.futureId)
        (entry.futureId :: expired, retained, rt)
      else collectLoop nowTick rest rt
    else
      let (expired, retained, rt) := collectLoop nowTick rest rt
      (expired, entry :: retained, rt)

def collectExpiredFutures (nowTick : Nat) : List Nat × ProcessRuntime :=
  if rt.deadlineQueue.any fun entry => entry.deadlineTick ≤ nowTick then
    let (expired, retained, rt) := collectLoop nowTick rt.deadlineQueue rt
    (expired, { rt with deadlineQueue := retained })
  else ([], rt)

def FutureRecord.earlier (future : FutureRecord) (tick : Nat) : Nat :=
  match future.deadlineTick with
  | some current => min current tick
  | none => tick

def attachFutureDeadline (futureId nowTick timeoutMs : Nat)
    (cancelOnTimeout : Bool) : ProcessRuntime :=
  match rt.futures[futureId]? with
  | none => rt
  | some future =>
    if !future.state.isRunning then rt
    else
      let deadlineTick := FutureRecord.earlier future (saturatingAdd nowTick timeoutMs)
      let rt :=
        { rt with
          futures := rt.futures.insert futureId
            { future with
              cancelOnTimeout := future.cancelOnTimeout || cancelOnTimeout
              deadlineTick := some deadlineTick } }
      let entry : DeadlineEntry := { deadlineTick, futureId }
      if entry ∈ rt.deadlineQueue then rt
      else { rt with deadlineQueue := rt.deadlineQueue ++ [entry] }

/-! ### Timeouts (`vm.rs:3614-3696`, `process_continuation.rs:737-786`) -/

def registerErrorTask (task : ErrorTask) : ProcessRuntime :=
  { rt with errorTasks := rt.errorTasks ++ [task] }

/-- The error is not constructed here but by the task that is registered. -/
def scheduleFutureError (kind : String) (args : List Value) : ProcessRuntime :=
  match rt.futures[futureId]? with
  | none => rt
  | some future =>
    if !future.state.isRunning || future.errorGenerationPending then rt
    else
      (rt.disarmFuture futureId future fun future => { future with errorGenerationPending := true })
        |>.registerErrorTask
          { futureId, kind, args, origin := future.creationContext, waitingOn := none }

def resolveFutureTimeout : ProcessRuntime :=
  match rt.futures[futureId]? with
  | none => rt
  | some future =>
    if future.initDeadlineTimeout then
      if !future.state.isRunning then rt
      else
        (rt.disarmFuture futureId future fun future => { future with state := .cancelled .unit })
          |>.wakeFutureWaiters futureId |>.2
    else rt.scheduleFutureError futureId "FutureDeadlineExceeded" [.int futureId]

def resolveSleepFuture : ProcessRuntime :=
  (rt.resolveFuture futureId (okVmResult .unit)).2

def resolveFutureProcessDown (futureId pid : Nat) : ProcessRuntime :=
  rt.scheduleFutureError futureId "ProcessReplyTargetStopped" [.int futureId, .int pid]

def expireFuture : ProcessRuntime :=
  let cancelOnTimeout := match rt.futures[futureId]? with
    | none => false
    | some future => future.cancelOnTimeout
  if cancelOnTimeout then rt.resolveFutureTimeout futureId else rt.resolveSleepFuture futureId

def expireProcessDeadlines (nowTick : Nat) : ProcessRuntime :=
  let (expired, rt) := rt.collectExpiredFutures nowTick
  expired.foldl expireFuture rt

/-- `elapsedMs` is what the clock anchor has measured since it was last moved. -/
def pollRuntimeDeadlines (elapsedMs : Nat) : ProcessRuntime :=
  let elapsed := min elapsedMs u64Max
  if 0 < elapsed then
    let rt := { rt with currentTickMs := saturatingAdd rt.currentTickMs elapsed }
    rt.expireProcessDeadlines rt.currentTickMs
  else rt

/-- A task that still has to deliver the future hides its value. -/
def delivers : Bool :=
  rt.deliveries.contains futureId || rt.errorTasks.any fun task => task.futureId == futureId

def readyFutureValue : Option Value :=
  if rt.delivers futureId then none else rawReadyFutureValue rt.futures futureId

def ErrorTask.isRunnable (task : ErrorTask) : Bool :=
  match task.waitingOn with
  | none => true
  | some futureId => (rt.readyFutureValue futureId).isSome

def hasRunnableBackgroundWork : Bool :=
  !rt.runQueue.isEmpty || rt.errorTasks.any (ErrorTask.isRunnable rt)

/-- The end of the waiting loops: with nothing to run, sleep until the next deadline. -/
def sleepToNextDeadline : ProcessRuntime :=
  if rt.hasRunnableBackgroundWork then rt
  else
    match rt.nextRunningDeadline with
    | none => rt
    | some nextDeadline =>
      { rt with currentTickMs := nextDeadline } |>.expireProcessDeadlines nextDeadline

def suspendErrorTask (index waitingOn : Nat) : ProcessRuntime :=
  { rt with
    errorTasks := rt.errorTasks.modify index fun task =>
      { task with waitingOn := some waitingOn } }

/-! ### The ends of tasks (`process_continuation.rs:1047-1240`, `1440-1570`) -/

def setErrorGenerationPending (pending : Bool) : ProcessRuntime :=
  match rt.futures[futureId]? with
  | none => rt
  | some future =>
    { rt with
      futures := rt.futures.insert futureId { future with errorGenerationPending := pending } }

def setFutureState (state : FutureState) : ProcessRuntime :=
  match rt.futures[futureId]? with
  | none => rt
  | some future => { rt with futures := rt.futures.insert futureId { future with state } }

def deliverFutureOutcome : Delivery → ProcessRuntime
  | .value value => (rt.resolveFuture futureId value).2
  | .construct task =>
    if futureId ∈ rt.futures then
      (rt.setErrorGenerationPending futureId true).registerErrorTask { task with futureId }
    else rt
  | .failed => rt

def takeTask : TaskRef → Option (Nat × ProcessRuntime)
  | .delivery futureId =>
    if futureId ∈ rt.deliveries then
      some (futureId, { rt with deliveries := rt.deliveries.erase futureId })
    else none
  | .error index =>
    rt.errorTasks[index]?.map fun task =>
      (task.futureId, { rt with errorTasks := rt.errorTasks.eraseIdx index })

/-- `complete_runtime_task` for `Future(Some(id))`. -/
def completeDelivery (value : Value) : ProcessRuntime :=
  match rt.takeTask (.delivery futureId) with
  | none => rt
  | some (futureId, rt) => (rt.resolveFuture futureId value).2

/-- `complete_runtime_task` for `ErrorFuture`; `outcome` is the constructed error
with the deferred cleanup. -/
def completeErrorTask (index : Nat) (outcome : Delivery) : ProcessRuntime :=
  match rt.takeTask (.error index) with
  | none => rt
  | some (futureId, rt) =>
    (rt.setErrorGenerationPending futureId false).deliverFutureOutcome futureId outcome

/-- An `Err` that is stored already is taken back and delivered again with the
failure of the cleanup as its cause; on any other value the failure is the VM's,
and while an error is being constructed it waits for that. -/
def deferCompletionCleanup : Delivery → ProcessRuntime
  | .failed => rt
  | outcome =>
    if (rawReadyFutureValue rt.futures futureId).any isErrResult then
      (rt.setFutureState futureId .running).deliverFutureOutcome futureId outcome
    else rt

def publishCompletedCleanup : ProcessRuntime :=
  if (rt.readyFutureValue futureId).isSome then (rt.wakeFutureWaiters futureId).2 else rt

/-- A task whose future has its outcome ends with its cleanup; one that had to be
cancelled for it publishes the outcome first. -/
def cleanTask (ref : TaskRef) (failure : Option Delivery) (cancelled : Bool) : ProcessRuntime :=
  match rt.takeTask ref with
  | none => rt
  | some (futureId, rt) =>
    let rt := if cancelled then rt.publishCompletedCleanup futureId else rt
    let rt := match failure with
      | none => rt
      | some outcome => rt.deferCompletionCleanup futureId outcome
    if cancelled then rt else rt.publishCompletedCleanup futureId

def forgetInternalFuture : ProcessRuntime :=
  { rt with
    futures := rt.futures.erase futureId
    deadlineQueue := rt.deadlineQueue.filter fun entry => entry.futureId != futureId }

end ProcessRuntime

end Surtr.Eldr.Runtime
