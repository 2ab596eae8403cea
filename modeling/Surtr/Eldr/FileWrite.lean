import Surtr.Eldr.HandlerAcquire

/-!
# Requests to write to a file (`eldr/src/vm/handler_bindings.rs`, `vm.rs`)

The request at the front of the queue of its sink is started by one resumption
and written by the next.
-/

namespace Surtr.Eldr.Handler
open Surtr.Sindr Surtr.Lib

/-- What happens to requests. A `written` is the call that hands the text to the
system. -/
inductive FileEvent where
  | accepted (request sink : Nat) (text : String)
  | started (request : Nat)
  | cancelled (request : Nat)
  | written (request sink : Nat) (text : String)
  deriving DecidableEq

structure FileIo where
  handlers : Handlers := {}
  log : List FileEvent := []

abbrev FileEff := Eff HandlerError FileIo

def onHandlers {α : Type} (m : HandlerEff α) : FileEff α :=
  Eff.step fun io =>
    let ran := Eff.exec m io.handlers
    (ran.1, { io with handlers := ran.2 })

def record (event : FileEvent) : FileEff Unit :=
  Eff.update fun io => { io with log := io.log ++ [event] }

inductive FileOutcome where
  | complete
  | resume (request : Nat)
  | writeFailed (path detail : String) (origin : Location)

def acceptFileWrite (origin : Option Location) (pid : HandlerPid) (text : String) :
    FileEff FileOutcome := do
  let request ← onHandlers nextRequestId
  let context ← onHandlers (derive none [pid])
  onHandlers (Eff.update fun h => { h with
    requests := h.requests.insert request ⟨pid.id, context, text, origin, false⟩
    queues := h.queues.insert pid.id ((h.queues.lookup pid.id).getD [] ++ [request]) })
  record (.accepted request pid.id text)
  return .resume request

def standardWrite (name : String) (wrote : Except String Unit) : FileEff FileOutcome :=
  match wrote with
  | .ok () => return .complete
  | .error detail => throw (.standardWriteFailed name detail)

def outHandlerWrite (wrote : Except String Unit) (origin : Option Location) (pid : HandlerPid)
    (text : String) : FileEff FileOutcome := do
  let h ← Eff.reads FileIo.handlers
  match ← Eff.liftExcept (target h pid) with
  | .stdOut => standardWrite "StdOut" wrote
  | .stdErr => standardWrite "StdErr" wrote
  | .null => return .complete
  | .stdIn => throw .notOutHandler
  | .file _ => acceptFileWrite origin pid text

def queue (h : Handlers) (sink : Nat) : List Nat := (h.queues.lookup sink).getD []

def removeRequest (id : Nat) : HandlerEff FileWriteRequest := do
  match ← Eff.reads fun h => h.requests.lookup id with
  | none => throw .requestDisappeared
  | some request =>
    Eff.update fun h => { h with requests := h.requests.erase id }
    match ← Eff.reads fun h => h.queues.lookup request.sink with
    | none => throw .requestHasNoFifo
    | some queued =>
      let rest := if queued.head? = some id then queued.tail else queued.filter (· ≠ id)
      Eff.update fun h => { h with
        queues := if rest.isEmpty then h.queues.erase request.sink
          else h.queues.insert request.sink rest }
      return request

def startFileWrite (flush : Nat → Except String Unit) (id : Nat) (request : FileWriteRequest)
    (incoming : Except RuntimeError Unit) : FileEff FileOutcome :=
  match incoming with
  | .error error => do
    let removed ← onHandlers (removeRequest id)
    record (.cancelled id)
    let _ ← Eff.attempt (onHandlers (release flush removed.context))
    throw (.incoming error)
  | .ok () => do
    if (← Eff.reads fun io => (queue io.handlers request.sink).head?) = some id then
      onHandlers (Eff.update fun h => { h with
        requests := h.requests.insert id { request with started := true } })
      record (.started id)
    return .resume id

variable (debug : Value → String)

def writeFailure (error : String) : Except HandlerError Unit → String
  | .ok () => error
  | .error cleanup => error ++ "; handler cleanup: " ++ cleanup.message debug

def finishFileWrite (flush : Nat → Except String Unit)
    (wrote : Except String Unit) (id : Nat) (incoming : Except RuntimeError Unit) :
    FileEff FileOutcome := do
  let request ← onHandlers (removeRequest id)
  match ← Eff.reads fun io => io.handlers.active.lookup request.sink with
  | none => throw .requestLostDescriptor
  | some path =>
    record (.written id request.sink request.text)
    let cleanup ← Eff.attempt (onHandlers (release flush request.context))
    match incoming, wrote with
    | .error original, _ => throw (.incoming original)
    | .ok (), .error error =>
      match request.origin with
      | none => throw .noSourceContext
      | some location => return .writeFailed path (writeFailure debug error cleanup) location
    | .ok (), .ok () =>
      Eff.liftExcept cleanup
      return .complete

def resumeFileWrite (flush : Nat → Except String Unit)
    (wrote : Except String Unit) (id : Nat) (incoming : Except RuntimeError Unit) :
    FileEff FileOutcome := do
  match ← Eff.reads fun io => io.handlers.requests.lookup id with
  | none => throw .resumedAfterCompletion
  | some request =>
    if request.started then finishFileWrite debug flush wrote id incoming
    else startFileWrite flush id request incoming

inductive FileOp where
  | bindings (op : HandlerOp)
  | write (wrote : Except String Unit) (origin : Option Location) (pid : HandlerPid) (text : String)
  | resume (flush : Nat → Except String Unit) (wrote : Except String Unit) (request : Nat)
      (incoming : Except RuntimeError Unit)

def requestContext (h : Handlers) (context : Option Nat) : Bool :=
  context.isSome && h.requests.entries.any fun e => e.2.context == context

/-- One operation. The number of a request's context is known to the request
alone, so no other operation is given it. -/
def FileOp.exec (io : FileIo) : FileOp → FileIo
  | .bindings op =>
    if requestContext io.handlers op.context then io
    else { io with handlers := (op.exec debug io.handlers).2 }
  | .write wrote origin pid text => (Eff.exec (outHandlerWrite wrote origin pid text) io).2
  | .resume flush wrote request incoming =>
    (Eff.exec (resumeFileWrite debug flush wrote request incoming) io).2

end Surtr.Eldr.Handler
