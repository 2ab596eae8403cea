import Surtr.Lib.CountMap
import Surtr.Sindr.ListHandle
import Surtr.Eldr.Machine

/-!
# Handler bindings (`eldr/src/vm/handler_bindings.rs`)

The answers of the operating system, and which handles the rest of the program
still holds, are inputs.
-/

namespace Surtr.Eldr.Handler
open Surtr.Sindr Surtr.Lib
open Eff (exec reads step update)

inductive HandlerTarget where
  | stdOut
  | stdErr
  | stdIn
  | null
  | file (path : String)
  deriving DecidableEq

def HandlerTarget.name : HandlerTarget → String
  | .stdOut => "StdOut"
  | .stdErr => "StdErr"
  | .stdIn => "StdIn"
  | .null => "NullOutHandler"
  | .file path => s!"FileOutHandler(path={path})"

structure HandlerPid where
  handle : PidHandle
  identity : Nat
  deriving DecidableEq

abbrev HandlerPid.id (pid : HandlerPid) : Nat := pid.handle.id

inductive HandlerError where
  | identityOverflow
  | standardArguments
  | unknownTarget (name : String)
  | fileArguments
  | fileArgumentName
  | noActiveDescriptor
  | capturedClosed
  | contextCountOverflow
  | originDisappeared
  | noActiveOwner
  | notHandlerPid
  | unregisteredPid
  | identityMismatch
  | contextDisappeared
  | ownerOverflow
  | ownerUnderflow
  | sinkCountDisappeared
  | sinkCountUnderflow
  | sinkBindingDisappeared
  | descriptorDisappeared
  | flushFailed (path detail : String)
  | notOutHandler
  | standardWriteFailed (name detail : String)
  | requestDisappeared
  | requestHasNoFifo
  | resumedAfterCompletion
  | requestLostDescriptor
  | noSourceContext
  | incoming (error : RuntimeError)

variable (debug : Value → String)

def HandlerError.message : HandlerError → String
  | .identityOverflow => "handler identity counter overflow"
  | .standardArguments => "standard handler metadata takes no arguments"
  | .unknownTarget name => s!"unknown handler metadata target {name}"
  | .fileArguments => "FileOutHandler metadata requires exactly the named argument path"
  | .fileArgumentName => "FileOutHandler metadata requires the named argument path"
  | .noActiveDescriptor => "registered FileOut sink has no active descriptor"
  | .capturedClosed => "captured FileOut handler binding is closed"
  | .contextCountOverflow => "handler context count overflow"
  | .originDisappeared => "Task origin binding context disappeared"
  | .noActiveOwner => "Task capture has no active handler owner"
  | .notHandlerPid => "OutHandler requires a registered handler PID"
  | .unregisteredPid => "unregistered handler PID"
  | .identityMismatch => "handler PID identity mismatch"
  | .contextDisappeared => "handler binding context disappeared"
  | .ownerOverflow => "handler binding owner count overflow"
  | .ownerUnderflow => "handler binding owner count underflow"
  | .sinkCountDisappeared => "handler sink owner count disappeared"
  | .sinkCountUnderflow => "handler sink owner count underflow"
  | .sinkBindingDisappeared => "handler sink binding disappeared"
  | .descriptorDisappeared => "active handler descriptor disappeared"
  | .flushFailed path detail => s!"FileOutHandler flush failed for {path}: {detail}"
  | .notOutHandler => "StdIn is not an OutHandler"
  | .standardWriteFailed name detail => s!"{name} handler write failed: {detail}"
  | .requestDisappeared => "FileOut request disappeared"
  | .requestHasNoFifo => "FileOut request has no FIFO"
  | .resumedAfterCompletion => "FileOut request resumed after completion"
  | .requestLostDescriptor => "accepted FileOut request lost descriptor"
  | .noSourceContext => "FileOut Error generation has no source context"
  | .incoming error => error.message debug

inductive AcquisitionError where
  | metadata (error : HandlerError)
  | open (path detail : String)

/-- A failure of the roll-back joins the detail of a failed open. -/
def AcquisitionError.cleanup (failure : HandlerError) : AcquisitionError → AcquisitionError
  | .metadata error => .metadata error
  | .open path detail => .open path (detail ++ "; handler cleanup: " ++ failure.message debug)

structure HandlerBinding where
  identity : Nat
  target : HandlerTarget

structure BindingContext where
  slots : List ((String × String) × HandlerPid)
  sinks : List Nat
  references : Nat

structure FileWriteRequest where
  sink : Nat
  context : Option Nat
  text : String
  origin : Option Location
  started : Bool

/-- `HandlerState`, the open files and the counters of `HandlerIds`. -/
structure Handlers where
  requests : Assoc Nat FileWriteRequest := ∅
  queues : Assoc Nat (List Nat) := ∅
  contexts : Assoc Nat BindingContext := ∅
  bindings : Assoc Nat HandlerBinding := ∅
  byTarget : Assoc HandlerTarget HandlerPid := ∅
  fileContexts : Assoc Nat Nat := ∅
  active : Assoc Nat String := ∅
  bindingIds : Nat := 0
  contextIds : Nat := 0
  requestIds : Nat := 0

def u64Max : Nat := 2 ^ 64 - 1

abbrev HandlerEff := Eff HandlerError Handlers

def nextId (counter : Handlers → Nat) (store : Nat → Handlers → Handlers) : HandlerEff Nat := do
  let next ← reads fun h => counter h + 1
  if u64Max < next then throw .identityOverflow
  update (store next)
  return next

def nextBindingId : HandlerEff Nat :=
  nextId Handlers.bindingIds fun next h => { h with bindingIds := next }

def nextContextId : HandlerEff Nat :=
  nextId Handlers.contextIds fun next h => { h with contextIds := next }

def nextRequestId : HandlerEff Nat :=
  nextId Handlers.requestIds fun next h => { h with requestIds := next }

def target (h : Handlers) (pid : HandlerPid) : Except HandlerError HandlerTarget :=
  if pid.handle.kind ≠ .handler then .error .notHandlerPid
  else match h.bindings.lookup pid.id with
    | none => .error .unregisteredPid
    | some binding =>
      if binding.identity ≠ pid.identity then .error .identityMismatch else .ok binding.target

def insertSink (sink : Nat) (sinks : List Nat) : List Nat :=
  if sink ∈ sinks then sinks else sinks.orderedInsert (· ≤ ·) sink

def captureSink (h : Handlers) (closed : HandlerError) (sinks : List Nat) (pid : HandlerPid) :
    Except HandlerError (List Nat) := do
  match ← target h pid with
  | .file _ => if pid.id ∈ h.active then return insertSink pid.id sinks else .error closed
  | _ => return sinks

structure SlotRequest where
  slot : String
  target : RuntimeHandlerTarget
  canonical : Except String String
  opened : Except String Unit

def resolveTarget (r : SlotRequest) : Except AcquisitionError HandlerTarget :=
  if r.target.name ≠ "FileOutHandler" then
    if r.target.namedArgs ≠ [] then .error (.metadata .standardArguments)
    else if r.target.name = "StdOut" then .ok .stdOut
    else if r.target.name = "StdErr" then .ok .stdErr
    else if r.target.name = "StdIn" then .ok .stdIn
    else if r.target.name = "NullOutHandler" then .ok .null
    else .error (.metadata (.unknownTarget r.target.name))
  else match r.target.namedArgs with
    | [(name, value)] =>
      if name ≠ "path" then .error (.metadata .fileArgumentName)
      else match r.canonical with
        | .ok path => .ok (.file path)
        | .error detail => .error (.open value detail)
    | _ => .error (.metadata .fileArguments)

structure Acquiring where
  handlers : Handlers
  slots : List ((String × String) × HandlerPid) := []
  sinks : List Nat := []
  created : List Nat := []

abbrev AcquireEff := Eff AcquisitionError Acquiring

def withHandlers {α : Type} (m : HandlerEff α) : AcquireEff α :=
  step fun a =>
    let ran := exec m a.handlers
    (ran.1.mapError .metadata, { a with handlers := ran.2 })

def openSink (r : SlotRequest) (id : Nat) : HandlerTarget → AcquireEff Unit
  | .file path =>
    match r.opened with
    | .error detail => throw (.open ((r.target.namedArgs.head?.map Prod.snd).getD "") detail)
    | .ok () => update fun a =>
      { a with handlers := { a.handlers with active := a.handlers.active.insert id path } }
  | _ => return ()

def register (r : SlotRequest) (key : HandlerTarget) : AcquireEff HandlerPid := do
  let id ← withHandlers nextBindingId
  openSink r id key
  let pid : HandlerPid := ⟨⟨id, key.name, .handler⟩, id⟩
  update fun a => { a with
    handlers := { a.handlers with
      bindings := a.handlers.bindings.insert id ⟨pid.identity, key⟩
      byTarget := a.handlers.byTarget.insert key pid }
    created := a.created ++ [id] }
  return pid

def addSink (closed : HandlerError) (pid : HandlerPid) : AcquireEff Unit := do
  let sinks ← step fun a =>
    ((captureSink a.handlers closed a.sinks pid).mapError .metadata, a)
  update fun a => { a with sinks := sinks }

def acquireSlot (name : String) (r : SlotRequest) : AcquireEff Unit := do
  let key ← Eff.liftExcept (resolveTarget r)
  let known ← reads fun a => a.handlers.byTarget.lookup key
  let pid ← match known with
    | some pid => pure pid
    | none => register r key
  addSink .noActiveDescriptor pid
  update fun a => { a with slots := a.slots ++ [((name, r.slot), pid)] }

def checkCounts : AcquireEff Unit :=
  step fun a =>
    if a.sinks.all fun sink => (a.handlers.fileContexts.lookup sink).getD 0 + 1 ≤ usizeMax then
      (.ok (), a)
    else (.error (.metadata .contextCountOverflow), a)

def acquireAll (name : String) (requests : List SlotRequest) (captured : List HandlerPid) :
    AcquireEff Unit := do
  requests.forM (acquireSlot name)
  captured.forM (addSink .capturedClosed)
  checkCounts

def flushFailure (path : String) : Except String Unit → Option HandlerError
  | .ok () => none
  | .error detail => some (.flushFailed path detail)

variable (flush : Nat → Except String Unit)

def discard (id : Nat)
    (failed : AcquisitionError × Handlers) : AcquisitionError × Handlers :=
  let (error, h) := failed
  match h.bindings.lookup id with
  | none => failed
  | some binding =>
    let failure := (h.active.lookup id).bind fun path => flushFailure path (flush id)
    ((failure.map fun failure => error.cleanup debug failure).getD error,
      { h with
        bindings := h.bindings.erase id
        byTarget := h.byTarget.erase binding.target
        active := h.active.erase id })

def addCount (counts : Assoc Nat Nat) (sink : Nat) : Assoc Nat Nat :=
  counts.insert sink ((counts.lookup sink).getD 0 + 1)

def referenced (h : Handlers) (identity : Nat) : Bool :=
  h.byTarget.entries.any (fun e => e.2.identity == identity) ||
    h.contexts.entries.any (fun e => e.2.slots.any (fun slot => slot.2.identity == identity))

def dropDead (held : Nat → Bool) (h : Handlers) : Handlers :=
  let dead := h.bindings.entries.filter fun e =>
    !held e.2.identity && !referenced h e.2.identity
  { h with bindings :=
    (dead.map Sigma.fst).foldl (fun bindings id => bindings.erase id) h.bindings }

def acquire (held : Nat → Bool)
    (name : String) (requests : List SlotRequest) (captured : List HandlerPid) (h : Handlers) :
    Except AcquisitionError (Option Nat) × Handlers :=
  match exec nextContextId h with
  | (.error error, h) => (.error (.metadata error), h)
  | (.ok id, h) =>
    let h := dropDead held h
    match exec (acquireAll name requests captured) { handlers := h } with
    | (.error error, a) =>
      let (error, h) := a.created.foldl (fun failed id => discard debug flush id failed)
        (error, a.handlers)
      (.error error, h)
    | (.ok (), a) =>
      if a.slots.isEmpty ∧ a.sinks.isEmpty then (.ok none, a.handlers)
      else (.ok (some id), { a.handlers with
        fileContexts := a.sinks.foldl addCount a.handlers.fileContexts
        contexts := a.handlers.contexts.insert id ⟨a.slots, a.sinks, 1⟩ })

def retain : Option Nat → HandlerEff Unit
  | none => return ()
  | some id => do
    match ← reads fun h => h.contexts.lookup id with
    | none => throw .contextDisappeared
    | some context =>
      if usizeMax < context.references + 1 then throw .ownerOverflow
      update fun h => { h with
        contexts := h.contexts.insert id { context with references := context.references + 1 } }

def countContext (sink : Nat) : HandlerEff Unit := do
  match ← reads fun h => h.fileContexts.lookup sink with
  | none => throw .noActiveOwner
  | some count =>
    if usizeMax < count + 1 then throw .contextCountOverflow
    update fun h => { h with fileContexts := h.fileContexts.insert sink (count + 1) }

def originOf (h : Handlers) : Option Nat →
    Except HandlerError (List ((String × String) × HandlerPid) × List Nat)
  | none => .ok ([], [])
  | some id =>
    match h.contexts.lookup id with
    | none => .error .originDisappeared
    | some context => .ok (context.slots, context.sinks)

def addContext (slots : List ((String × String) × HandlerPid)) (sinks : List Nat) :
    HandlerEff (Option Nat) := do
  let id ← nextContextId
  sinks.forM countContext
  update fun h => { h with contexts := h.contexts.insert id ⟨slots, sinks, 1⟩ }
  return some id

def derive (origin : Option Nat) (captured : List HandlerPid) : HandlerEff (Option Nat) := do
  let h ← reads fun h => h
  let (slots, known) ← Eff.liftExcept (originOf h origin)
  let sinks ← Eff.liftExcept (captured.foldlM (captureSink h .capturedClosed) known)
  if origin.isNone ∧ sinks.isEmpty then return none
  if origin.isSome ∧ known.length = sinks.length then
    retain origin
    return origin
  addContext slots sinks

def releaseSink (failure : Option HandlerError) (sink : Nat) :
    HandlerEff (Option HandlerError) := do
  match ← reads fun h => h.fileContexts.lookup sink with
  | none => throw .sinkCountDisappeared
  | some count =>
    if count = 0 then throw .sinkCountUnderflow
    if count - 1 ≠ 0 then
      update fun h => { h with fileContexts := h.fileContexts.insert sink (count - 1) }
      return failure
    update fun h => { h with fileContexts := h.fileContexts.erase sink }
    match ← reads fun h => h.bindings.lookup sink with
    | none => throw .sinkBindingDisappeared
    | some binding =>
      update fun h => { h with byTarget := h.byTarget.erase binding.target }
      match ← reads fun h => h.active.lookup sink with
      | none => throw .descriptorDisappeared
      | some path =>
        update fun h => { h with active := h.active.erase sink }
        return failure.or (flushFailure path (flush sink))

def releaseSinks (flush : Nat → Except String Unit) : Option HandlerError → List Nat →
    HandlerEff (Option HandlerError)
  | failure, [] => return failure
  | failure, sink :: rest => do
    let failure ← releaseSink flush failure sink
    releaseSinks flush failure rest

def release : Option Nat → HandlerEff Unit
  | none => return ()
  | some id => do
    match ← reads fun h => h.contexts.lookup id with
    | none => throw .contextDisappeared
    | some context =>
      if context.references = 0 then throw .ownerUnderflow
      if context.references - 1 ≠ 0 then
        update fun h => { h with
          contexts := h.contexts.insert id { context with references := context.references - 1 } }
      else
        update fun h => { h with contexts := h.contexts.erase id }
        match ← releaseSinks flush none context.sinks with
        | none => return ()
        | some failure => throw failure

end Surtr.Eldr.Handler
