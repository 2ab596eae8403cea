import Surtr.Eldr.ProcessRuntime

/-!
# Executions on a process body (`vm.rs`, `process_continuation.rs`)

An execution reads the state it was started with, postprocesses, stores the next
state and finishes.
-/

namespace Surtr.Eldr.Runtime
open Surtr.Sindr Surtr.Lib

structure RuntimeFault where
  message : String
  deriving DecidableEq

/-- A value, an error value that a constructor of the program still has to build, or
a future to wait for. -/
inductive BuiltinOutcome where
  | complete (value : Value)
  | languageError (kind : String) (args : List Value)
  | wait (futureId : Nat)

def BuiltinOutcome.isComplete : BuiltinOutcome → Bool
  | complete _ => true
  | _ => false

abbrev Outcome := Except RuntimeFault BuiltinOutcome

def Outcome.isComplete : Outcome → Bool
  | .ok outcome => outcome.isComplete
  | .error _ => false

def PidRef.errorArgs (pid : PidRef) : List Value := [.int pid.id, .str pid.processName]

namespace ProcessRuntime
variable (rt : ProcessRuntime)

def allocateProcess (specId address : Nat) (spec : RuntimeProcessSpec)
    (state : Option Value) : ProcessRuntime :=
  let pid := rt.nextPid
  let kind := match spec.inst with
    | .singleton => PidKind.singleton
    | .worker => PidKind.worker
  { rt with
    nextPid := pid + 1
    processes := rt.processes.insert pid
      { pid, specId
        identity := { address, id := pid, processName := spec.typeName, kind }
        acceptance := .accepting, stopReason := none, status := .runnable, mailbox := []
        stateValue := state
        standbyStatePending := spec.init.policy = .standby && state.isNone } }

variable (live : PidRef → Bool)

/-- `live` says which stopped identities can still be upgraded, `prepared` is
the result of preparing the body's context. -/
def startProcessExecutionAt
    (prepared : Except RuntimeFault Unit) (current : Option Nat) (pid : PidRef)
    (origin : Location) : Outcome × ProcessRuntime :=
  if pid.kind = .handler then
    (.error ⟨"handler capability is not a process destination"⟩, rt)
  else
    let stopped := rt.stoppedIdentities[pid.id]?.filter live
    match (rt.processes[pid.id]?.map ProcessInstance.identity).or stopped with
    | none => (.ok (.languageError "ProcessStateUnknownPid" pid.errorArgs), rt)
    | some actual =>
      if actual.processName ≠ pid.processName ∨ actual.kind ≠ pid.kind then
        (.ok (.languageError "ProcessStatePidTypeMismatch"
          [.int pid.id, .str actual.processName, .str pid.processName]), rt)
      else if actual ≠ pid then
        (.ok (.languageError "ProcessStateUnknownPid" pid.errorArgs), rt)
      else if stopped = some pid ∨
          (rt.processes[pid.id]?.map ProcessInstance.acceptance) = some .stopping then
        (.ok (.languageError "ProcessStopped" pid.errorArgs), rt)
      else
        match rt.processes[pid.id]? with
        | none => (.error ⟨"accepting process has no live body"⟩, rt)
        | some entry =>
          match entry.stateValue with
          | none =>
            if entry.standbyStatePending then
              (.error ⟨"process execution before initialization completed"⟩, rt)
            else (.ok (.languageError "ProcessStateUnavailable" pid.errorArgs), rt)
          | some initialState =>
            let id := rt.nextExecutionId
            let (future, rt) :=
              { rt with nextExecutionId := id + 1 }.allocateFuture (some pid.id) none false
            let rt := match rt.futures[future]? with
              | none => rt
              | some record =>
                { rt with
                  futures := rt.futures.insert future
                    { record with creationContext := some origin } }
            match prepared with
            | .error fault => (.error fault, rt)
            | .ok _ =>
              (.ok (.wait future),
                { rt with
                  executions := rt.executions.insert id
                    { pid, parent := current, stage := .handling, stored := false
                      initialState := some initialState, resultFuture := future
                      internalFutures := [], origin } })

/-- The checks `process_state` and `process_store` begin with; the kinds of the
errors are those of the caller. -/
def checkBody (pid : PidRef) (unknownPid typeMismatch : String) :
    Except Outcome ProcessInstance :=
  match rt.processes[pid.id]? with
  | none => .error (.ok (.languageError unknownPid pid.errorArgs))
  | some entry =>
    match rt.specsById[entry.specId]? with
    | none =>
      .error (.error ⟨s!"process {pid.id} references unknown spec {entry.specId}"⟩)
    | some spec =>
      if spec.typeName ≠ pid.processName then
        .error (.ok (.languageError typeMismatch
          [.int pid.id, .str spec.typeName, .str pid.processName]))
      else if entry.identity ≠ pid then
        .error (.ok (.languageError unknownPid pid.errorArgs))
      else .ok entry

def setExecution (id : Nat) (record : ProcessExecutionRecord) :
    ProcessRuntime :=
  { rt with executions := rt.executions.insert id record }

section
variable (current : Option Nat) (pid : PidRef)

def processState : Outcome × ProcessRuntime :=
  match rt.checkBody pid "ProcessStateUnknownPid" "ProcessStatePidTypeMismatch" with
  | .error outcome => (outcome, rt)
  | .ok _ =>
    match current with
    | none => (.error ⟨"process state outside managed execution"⟩, rt)
    | some id =>
      match rt.executions[id]? with
      | none => (.error ⟨"state from completed process execution"⟩, rt)
      | some record =>
        if record.pid ≠ pid ∨ record.stage ≠ .handling then
          (.error ⟨"state requires matching wrapper execution"⟩, rt)
        else
          match record.initialState with
          | none => (.error ⟨"wrapper initial state was already read"⟩, rt)
          | some state =>
            (.ok (.complete (okVmResult state)),
              rt.setExecution id { record with initialState := none })

def processPostprocess : Outcome × ProcessRuntime :=
  match current with
  | none => (.error ⟨"process postprocessing outside managed execution"⟩, rt)
  | some id =>
    match rt.executions[id]? with
    | none => (.error ⟨"process postprocessing from completed execution"⟩, rt)
    | some record =>
      if record.pid ≠ pid ∨ record.stage ≠ .handling ∨ record.initialState.isSome then
        (.error
          ⟨"process postprocessing requires the matching handler after its initial state read"⟩, rt)
      else (.ok (.complete .unit), rt.setExecution id { record with stage := .postprocessing })

def processStore (nextState : Value) : Outcome × ProcessRuntime :=
  match rt.checkBody pid "ProcessStoreUnknownPid" "ProcessStorePidTypeMismatch" with
  | .error outcome => (outcome, rt)
  | .ok entry =>
    match current with
    | none => (.error ⟨"process store outside managed execution"⟩, rt)
    | some id =>
      match rt.executions[id]? with
      | none => (.error ⟨"process store from completed execution"⟩, rt)
      | some record =>
        if record.pid ≠ pid ∨ record.stage ≠ .postprocessing ∨ record.stored then
          (.error ⟨"process store requires the matching unsaved postprocessing execution"⟩, rt)
        else
          (.ok (.complete (okVmResult .unit)),
            { rt.setExecution id { record with stored := true } with
              processes := rt.processes.insert pid.id
                { entry with stateValue := some nextState, standbyStatePending := false } })

def requestProcessStop (reason : ProcessStopReason) : Outcome × ProcessRuntime :=
  match current with
  | none => (.error ⟨"process stop outside managed execution"⟩, rt)
  | some id =>
    match rt.executions[id]? with
    | none => (.error ⟨"process stop from completed execution"⟩, rt)
    | some record =>
      if record.pid ≠ pid ∨ record.stage ≠ .postprocessing then
        (.error ⟨"process stop requires matching postprocessing execution"⟩, rt)
      else
        match rt.processes[pid.id]? with
        | none => (.error ⟨"process stop lost live body"⟩, rt)
        | some entry =>
          if entry.acceptance = .accepting then
            let rt :=
              { rt with
                processes := rt.processes.insert pid.id
                  { entry with acceptance := .stopping, stopReason := some reason } }
            if entry.mailbox.isEmpty then (.ok (.complete .unit), rt)
            else (.error ⟨"process mailbox has no dispatch contract"⟩, rt)
          else (.ok (.complete .unit), rt)

end

def executionsOf (pid : Nat) : List ProcessExecutionRecord :=
  (rt.executions.toList.map Prod.snd).filter fun record => record.pid.id == pid

/-- The cancellation of the tasks is not part of this state; each of them ends
in `finish_process_execution`. -/
def abortProcessExecutions (pid : Nat) :
    Except RuntimeFault (List Nat) × ProcessRuntime :=
  match rt.processes[pid]? with
  | none => (.error ⟨"aborted process has no body"⟩, rt)
  | some entry =>
    let replies := (rt.executionsOf pid).map ProcessExecutionRecord.resultFuture
    let rt :=
      { rt with processes := rt.processes.insert pid { entry with acceptance := .stopping } }
    (.ok replies, replies.foldl (fun rt future => rt.resolveFutureProcessDown future pid) rt)

def sweepStoppedIdentities : ProcessRuntime :=
  { rt with stoppedIdentities := rt.stoppedIdentities.filter fun _ identity => live identity }

def disownFuture (pid : Nat) (future : FutureRecord) : FutureRecord :=
  if future.owner = some pid then { future with owner := none } else future

/-- `cleanup` is the result of releasing the handlers of the body. -/
def reclaimStoppedProcess
    (cleanup : Except RuntimeFault Unit) (pid : Nat) : Except RuntimeFault Unit × ProcessRuntime :=
  match rt.processes[pid]? with
  | none => (.error ⟨"stopped process body disappeared before reclamation"⟩, rt)
  | some entry =>
    let rt :=
      { rt with
        processes := rt.processes.erase pid
        stoppedIdentities := rt.stoppedIdentities.insert pid entry.identity
        runQueue := rt.runQueue.filter fun queued => queued != pid
        waitingTable := rt.waitingTable.erase pid
        futures := rt.futures.map fun _ future => disownFuture pid future }
    (cleanup, rt.sweepStoppedIdentities live)

def isStopping (pid : Nat) : Bool :=
  match rt.processes[pid]? with
  | none => false
  | some entry => entry.acceptance == .stopping

def finishProcessExecution
    (cleanup : Except RuntimeFault Unit) (id : Nat) : Except RuntimeFault Unit × ProcessRuntime :=
  match rt.executions[id]? with
  | none => (.error ⟨"process execution finished twice or disappeared"⟩, rt)
  | some record =>
    let rt := { rt with executions := rt.executions.erase id }
    let rt := record.internalFutures.foldl forgetInternalFuture rt
    if rt.isStopping record.pid.id && (rt.executionsOf record.pid.id).isEmpty then
      rt.reclaimStoppedProcess live cleanup record.pid.id
    else (.ok (), rt)

end ProcessRuntime

/-- What happens to process bodies, with the caller's execution where there is
one. `spawn` is `allocate_process`. -/
inductive ProcessEvent where
  | spawn (specId address : Nat) (spec : RuntimeProcessSpec) (state : Option Value)
  | start (live : PidRef → Bool) (prepared : Except RuntimeFault Unit) (current : Option Nat)
      (pid : PidRef) (origin : Location)
  | state (current : Option Nat) (pid : PidRef)
  | postprocess (current : Option Nat) (pid : PidRef)
  | store (current : Option Nat) (pid : PidRef) (nextState : Value)
  | stop (current : Option Nat) (pid : PidRef) (reason : ProcessStopReason)
  | abort (pid : Nat)
  | finish (live : PidRef → Bool) (cleanup : Except RuntimeFault Unit) (id : Nat)

def ProcessEvent.isFinish : ProcessEvent → Bool
  | finish _ _ _ => true
  | _ => false

def unitOutcome {α : Type} : Except RuntimeFault α → Outcome
  | .ok _ => .ok (.complete .unit)
  | .error fault => .error fault

def ProcessEvent.apply (rt : ProcessRuntime) : ProcessEvent → Outcome × ProcessRuntime
  | spawn specId address spec initial =>
    (.ok (.complete .unit), rt.allocateProcess specId address spec initial)
  | start live prepared current pid origin =>
    rt.startProcessExecutionAt live prepared current pid origin
  | state current pid => rt.processState current pid
  | postprocess current pid => rt.processPostprocess current pid
  | store current pid nextState => rt.processStore current pid nextState
  | stop current pid reason => rt.requestProcessStop current pid reason
  | abort pid =>
    let (result, rt) := rt.abortProcessExecutions pid
    (unitOutcome result, rt)
  | finish live cleanup id =>
    let (result, rt) := rt.finishProcessExecution live cleanup id
    (unitOutcome result, rt)

def ProcessEvent.run (specs : List RuntimeProcessSpec) :
    List ProcessEvent → List (ProcessEvent × Outcome) × ProcessRuntime :=
  fun events => events.foldl (fun (log, rt) event =>
    let (outcome, rt) := event.apply rt
    (log ++ [(event, outcome)], rt)) ([], { specsById := specs })

structure Bodies where
  nextPid : Nat
  nextExecution : Nat
  body : Nat → Option ProcessInstance
  exec : Nat → Option ProcessExecutionRecord

def ProcessRuntime.bodies (rt : ProcessRuntime) : Bodies :=
  { nextPid := rt.nextPid
    nextExecution := rt.nextExecutionId
    body := lookup rt.processes
    exec := lookup rt.executions }

namespace Bodies

def setBody (B : Bodies) (pid : Nat) (entry : Option ProcessInstance) : Bodies :=
  { B with body := Function.update B.body pid entry }

def setExec (B : Bodies) (id : Nat) (record : Option ProcessExecutionRecord) : Bodies :=
  { B with exec := Function.update B.exec id record }

def Last (B : Bodies) (id : Nat) (record : ProcessExecutionRecord) : Prop :=
  (∃ entry, B.body record.pid.id = some entry ∧ entry.acceptance = .stopping) ∧
    ∀ id' other, id' ≠ id → B.exec id' = some other → other.pid.id ≠ record.pid.id

inductive EventStep (B : Bodies) : ProcessEvent → Outcome → Bodies → Prop where
  | refused {event : ProcessEvent} {outcome : Outcome} (hout : outcome.isComplete = false)
      (hidle : ∀ live cleanup id, event = .finish live cleanup id → B.exec id = none) :
      EventStep B event outcome B
  | spawned {entry : ProcessInstance} (hid : entry.identity.id = B.nextPid)
      (hacc : entry.acceptance = .accepting) (hreason : entry.stopReason = none)
      (hmailbox : entry.mailbox = []) :
      EventStep B (.spawn specId address spec state) (.ok (.complete .unit))
        { B.setBody B.nextPid (some entry) with nextPid := B.nextPid + 1 }
  | unprepared {pid : PidRef} {outcome : Outcome} (hbody : B.body pid.id = some entry)
      (hacc : entry.acceptance = .accepting) (hout : outcome.isComplete = false) :
      EventStep B (.start live prepared current pid origin) outcome
        { B with nextExecution := B.nextExecution + 1 }
  | accepted {pid : PidRef} {record : ProcessExecutionRecord} (hbody : B.body pid.id = some entry)
      (hacc : entry.acceptance = .accepting) (hpid : record.pid = pid)
      (hstage : record.stage = .handling) (hstored : record.stored = false)
      (hstate : record.initialState.isSome = true) :
      EventStep B (.start live prepared current pid origin) (.ok (.wait future))
        { B.setExec B.nextExecution (some record) with nextExecution := B.nextExecution + 1 }
  | read {id : Nat} (hexec : B.exec id = some record) (hpid : record.pid = pid)
      (hstage : record.stage = .handling) (hstate : record.initialState = some state) :
      EventStep B (.state (some id) pid) (.ok (.complete (okVmResult state)))
        (B.setExec id (some { record with initialState := none }))
  | postprocessed {id : Nat} (hexec : B.exec id = some record) (hpid : record.pid = pid)
      (hstage : record.stage = .handling) (hstate : record.initialState = none) :
      EventStep B (.postprocess (some id) pid) (.ok (.complete .unit))
        (B.setExec id (some { record with stage := .postprocessing }))
  | stored {id : Nat} (hexec : B.exec id = some record) (hpid : record.pid = pid)
      (hstage : record.stage = .postprocessing) (hstored : record.stored = false)
      (hbody : B.body pid.id = some entry) :
      EventStep B (.store (some id) pid nextState) (.ok (.complete (okVmResult .unit)))
        ((B.setExec id (some { record with stored := true })).setBody pid.id
          (some { entry with stateValue := some nextState, standbyStatePending := false }))
  | stopped {id : Nat} {outcome : Outcome} (hexec : B.exec id = some record)
      (hpid : record.pid = pid) (hstage : record.stage = .postprocessing)
      (hbody : B.body pid.id = some entry) (hacc : entry.acceptance = .accepting)
      (hout : outcome.isComplete = entry.mailbox.isEmpty) :
      EventStep B (.stop (some id) pid reason) outcome
        (B.setBody pid.id
          (some { entry with acceptance := .stopping, stopReason := some reason }))
  | stoppedAgain {id : Nat} (hexec : B.exec id = some record) (hpid : record.pid = pid)
      (hstage : record.stage = .postprocessing) (hbody : B.body pid.id = some entry)
      (hacc : entry.acceptance = .stopping) :
      EventStep B (.stop (some id) pid reason) (.ok (.complete .unit)) B
  | aborted (hbody : B.body pid = some entry) :
      EventStep B (.abort pid) (.ok (.complete .unit))
        (B.setBody pid (some { entry with acceptance := .stopping }))
  | finished {id : Nat} (hexec : B.exec id = some record) (hmore : ¬B.Last id record) :
      EventStep B (.finish live cleanup id) (.ok (.complete .unit)) (B.setExec id none)
  | reclaimed {id : Nat} (hexec : B.exec id = some record) (hlast : B.Last id record) :
      EventStep B (.finish live cleanup id) (unitOutcome cleanup)
        ((B.setExec id none).setBody record.pid.id none)

theorem EventStep.refuse {B : Bodies} {event : ProcessEvent} {outcome : Outcome}
    (hout : outcome.isComplete = false) (hother : event.isFinish = false) :
    EventStep B event outcome B := by
  refine .refused hout fun live cleanup id hfin => ?_
  rw [hfin] at hother
  cases hother

end Bodies

namespace ProcessRuntime

variable (rt : ProcessRuntime)

theorem bodies_scheduleFutureError (futureId : Nat) (kind : String)
    (args : List Value) : (rt.scheduleFutureError futureId kind args).bodies = rt.bodies := by
  fun_cases scheduleFutureError rt futureId kind args <;> rfl

theorem bodies_foldl_processDown (futures : List Nat) (pid : Nat) (rt : ProcessRuntime) :
    (futures.foldl (fun rt future => rt.resolveFutureProcessDown future pid) rt).bodies =
      rt.bodies := by
  induction futures generalizing rt with
  | nil => rfl
  | cons future futures ih => rw [List.foldl_cons, ih, resolveFutureProcessDown,
      bodies_scheduleFutureError]

theorem bodies_foldl_forget (futures : List Nat) (rt : ProcessRuntime) :
    (futures.foldl forgetInternalFuture rt).bodies = rt.bodies := by
  induction futures generalizing rt with
  | nil => rfl
  | cons future futures ih => rw [List.foldl_cons, ih]; rfl

theorem bodies_setExecution (id : Nat) (record : ProcessExecutionRecord) :
    (rt.setExecution id record).bodies = rt.bodies.setExec id (some record) := by
  simp only [setExecution, bodies, Bodies.setExec, lookup_insert]

variable {rt} {unknownPid typeMismatch : String}

theorem checkBody_ok {pid : PidRef}
    {entry : ProcessInstance} (h : rt.checkBody pid unknownPid typeMismatch = .ok entry) :
    rt.bodies.body pid.id = some entry ∧ entry.identity = pid := by
  revert h
  fun_cases checkBody rt pid unknownPid typeMismatch with
  | case5 found hget _ _ _ hident =>
    rintro ⟨⟩
    exact ⟨hget, not_not.mp hident⟩
  | _ => exact fun h => nomatch h

theorem checkBody_error {pid : PidRef}
    {outcome : Outcome} (h : rt.checkBody pid unknownPid typeMismatch = .error outcome) :
    outcome.isComplete = false := by
  revert h
  fun_cases checkBody rt pid unknownPid typeMismatch <;> rintro ⟨⟩ <;> rfl

section
variable (rt) (current : Option Nat) (pid : PidRef)

theorem step_processState :
    rt.bodies.EventStep (.state current pid) (rt.processState current pid).1
      (rt.processState current pid).2.bodies := by
  fun_cases processState rt current pid with
  | case1 _ outcome hcheck => exact .refuse (checkBody_error hcheck) rfl
  | case6 entry _ id record hexec hmatch state hstate =>
    simp only [not_or, not_not] at hmatch
    rw [bodies_setExecution]
    exact .read hexec hmatch.1 hmatch.2 hstate
  | _ => exact .refuse rfl rfl

theorem step_processPostprocess :
    rt.bodies.EventStep (.postprocess current pid) (rt.processPostprocess current pid).1
      (rt.processPostprocess current pid).2.bodies := by
  fun_cases processPostprocess rt current pid with
  | case4 id record hexec hmatch =>
    simp only [not_or, not_not, Bool.not_eq_true, Option.isSome_eq_false_iff,
      Option.isNone_iff_eq_none] at hmatch
    rw [bodies_setExecution]
    exact .postprocessed hexec hmatch.1 hmatch.2.1 hmatch.2.2
  | _ => exact .refuse rfl rfl

theorem step_processStore (nextState : Value) :
    rt.bodies.EventStep (.store current pid nextState) (rt.processStore current pid nextState).1
      (rt.processStore current pid nextState).2.bodies := by
  fun_cases processStore rt current pid nextState with
  | case1 _ outcome hcheck => exact .refuse (checkBody_error hcheck) rfl
  | case5 entry hcheck id record hexec hmatch =>
    simp only [not_or, not_not, Bool.not_eq_true] at hmatch
    simp only [bodies, setExecution, lookup_insert]
    exact Bodies.EventStep.stored hexec hmatch.1 hmatch.2.1 hmatch.2.2 (checkBody_ok hcheck).1
  | _ => exact .refuse rfl rfl

theorem step_requestProcessStop (reason : ProcessStopReason) :
    rt.bodies.EventStep (.stop current pid reason) (rt.requestProcessStop current pid reason).1
      (rt.requestProcessStop current pid reason).2.bodies := by
  fun_cases requestProcessStop rt current pid reason with
  | case5 id record hexec hmatch entry hbody hacc rt' hempty =>
    simp only [not_or, not_not] at hmatch
    simp only [bodies, rt', lookup_insert]
    exact .stopped hexec hmatch.1 hmatch.2 hbody hacc hempty.symm
  | case6 id record hexec hmatch entry hbody hacc rt' hmail =>
    simp only [not_or, not_not] at hmatch
    simp only [bodies, rt', lookup_insert]
    exact .stopped hexec hmatch.1 hmatch.2 hbody hacc (by simpa [Outcome.isComplete] using hmail)
  | case7 id record hexec hmatch entry hbody hacc =>
    simp only [not_or, not_not] at hmatch
    have hstopping : entry.acceptance = .stopping := by
      cases hcase : entry.acceptance with
      | accepting => exact absurd hcase hacc
      | stopping => rfl
    exact .stoppedAgain hexec hmatch.1 hmatch.2 hbody hstopping
  | _ => exact .refuse rfl rfl

end

variable (rt)

theorem step_startProcessExecutionAt (live : PidRef → Bool)
    (prepared : Except RuntimeFault Unit) (current : Option Nat) (pid : PidRef)
    (origin : Location) : rt.bodies.EventStep (.start live prepared current pid origin)
      (rt.startProcessExecutionAt live prepared current pid origin).1
      (rt.startProcessExecutionAt live prepared current pid origin).2.bodies := by
  have haccepting {entry : ProcessInstance} (hbody : rt.processes[pid.id]? = some entry)
      {stopped : Prop} (h : ¬(stopped ∨
        rt.processes[pid.id]?.map ProcessInstance.acceptance = some .stopping)) :
      entry.acceptance = .accepting := by
    cases hcase : entry.acceptance with
    | accepting => rfl
    | stopping => exact absurd (.inr (by rw [hbody, Option.map_some, hcase])) h
  fun_cases startProcessExecutionAt rt live prepared current pid origin with
  | case9 _ _ _ _ _ _ hstopped entry hbody _ _ _ _ _ halloc rt' =>
    cases halloc
    simp only [rt', Std.TreeMap.getElem?_insert_self]
    exact .unprepared hbody (haccepting hbody hstopped) rfl
  | case10 _ _ _ _ _ _ hstopped entry hbody _ _ _ _ _ halloc rt' =>
    cases halloc
    simp only [rt', Std.TreeMap.getElem?_insert_self, bodies, lookup_insert]
    exact .accepted hbody (haccepting hbody hstopped) rfl rfl rfl rfl
  | _ => exact .refuse rfl rfl

theorem executionsOf_isEmpty (pid : Nat) : (rt.executionsOf pid).isEmpty = true ↔
      ∀ id record, rt.bodies.exec id = some record → record.pid.id ≠ pid := by
  rw [executionsOf, List.isEmpty_iff, List.filter_eq_nil_iff]
  constructor
  · intro h id record hexec heq
    have hmem : record ∈ rt.executions.toList.map Prod.snd :=
      List.mem_map.mpr ⟨(id, record), Std.TreeMap.mem_toList_iff_getElem?_eq_some.mpr hexec, rfl⟩
    exact h record hmem (by simpa using heq)
  · intro h record hmem heq
    obtain ⟨⟨id, record⟩, hpair, rfl⟩ := List.mem_map.mp hmem
    exact h id record (Std.TreeMap.mem_toList_iff_getElem?_eq_some.mp hpair) (by simpa using heq)

theorem isStopping_iff (pid : Nat) : rt.isStopping pid = true ↔
      ∃ entry, rt.bodies.body pid = some entry ∧ entry.acceptance = .stopping := by
  have hbody : rt.bodies.body pid = rt.processes[pid]? := rfl
  fun_cases isStopping rt pid with
  | case1 hget | case2 entry hget => simp [hbody, hget]

theorem step_abortProcessExecutions (pid : Nat) :
    rt.bodies.EventStep (.abort pid) (unitOutcome (rt.abortProcessExecutions pid).1)
      (rt.abortProcessExecutions pid).2.bodies := by
  fun_cases abortProcessExecutions rt pid with
  | case1 => exact .refuse rfl rfl
  | case2 entry hbody replies rt' =>
    simp only [bodies_foldl_processDown, rt']
    simp only [bodies, lookup_insert]
    exact .aborted hbody

variable {rt} in
theorem last_iff {id : Nat} {record : ProcessExecutionRecord} : rt.bodies.Last id record ↔
      (∃ entry, (rt.bodies.setExec id none).body record.pid.id = some entry ∧
        entry.acceptance = .stopping) ∧
      ∀ id' other, (rt.bodies.setExec id none).exec id' = some other →
        other.pid.id ≠ record.pid.id := by
  refine and_congr_right fun _ => ?_
  constructor
  · intro h id' other hexec
    simp only [Bodies.setExec, Function.update_apply] at hexec
    split at hexec
    · exact absurd hexec (by simp)
    · exact h id' other ‹_› hexec
  · intro h id' other hne hexec
    refine h id' other ?_
    simpa only [Bodies.setExec, Function.update_apply, if_neg hne] using hexec

theorem bodies_closeExecution (id : Nat) (futures : List Nat) :
    (futures.foldl forgetInternalFuture { rt with executions := rt.executions.erase id }).bodies =
      rt.bodies.setExec id none := by
  rw [bodies_foldl_forget]
  simp only [bodies, Bodies.setExec, lookup_erase]

variable {rt} in
theorem reclaims_iff {rest : ProcessRuntime} {id : Nat} {record : ProcessExecutionRecord}
    (hbodies : rest.bodies = rt.bodies.setExec id none) :
    (rest.isStopping record.pid.id && (rest.executionsOf record.pid.id).isEmpty) = true ↔
      rt.bodies.Last id record := by
  rw [Bool.and_eq_true, isStopping_iff, executionsOf_isEmpty, hbodies, last_iff]

variable {rt} in
theorem reclaimStoppedProcess_of_live {pid : Nat} {entry : ProcessInstance}
    (live : PidRef → Bool) (cleanup : Except RuntimeFault Unit)
    (hget : rt.processes[pid]? = some entry) :
    (rt.reclaimStoppedProcess live cleanup pid).1 = cleanup ∧
      (rt.reclaimStoppedProcess live cleanup pid).2.bodies = rt.bodies.setBody pid none := by
  constructor
  · simp only [reclaimStoppedProcess, hget]
  · simp only [reclaimStoppedProcess, hget, sweepStoppedIdentities, bodies, Bodies.setBody,
      lookup_erase]

theorem step_finishProcessExecution (live : PidRef → Bool)
    (cleanup : Except RuntimeFault Unit) (id : Nat) : rt.bodies.EventStep (.finish live cleanup id)
      (unitOutcome (rt.finishProcessExecution live cleanup id).1)
      (rt.finishProcessExecution live cleanup id).2.bodies := by
  unfold finishProcessExecution
  split
  case h_1 hexec =>
    refine .refused rfl ?_
    rintro _ _ _ ⟨⟩
    exact hexec
  case h_2 record hexec =>
    simp only
    have hbodies := bodies_closeExecution rt id record.internalFutures
    generalize record.internalFutures.foldl forgetInternalFuture
      { rt with executions := rt.executions.erase id } = rest at hbodies ⊢
    split
    case isTrue h =>
      obtain ⟨entry, hbody, _⟩ :=
        (isStopping_iff rest record.pid.id).mp (Bool.and_eq_true _ _ ▸ h).1
      obtain ⟨hout, hreclaim⟩ := reclaimStoppedProcess_of_live live cleanup hbody
      rw [hreclaim, hout, hbodies]
      exact .reclaimed hexec ((reclaims_iff hbodies).mp h)
    case isFalse h =>
      rw [hbodies]
      exact .finished hexec fun hl => h ((reclaims_iff hbodies).mpr hl)

theorem step_event (event : ProcessEvent) :
    rt.bodies.EventStep event (event.apply rt).1 (event.apply rt).2.bodies := by
  cases event with
  | spawn specId address spec initial =>
    simp only [ProcessEvent.apply, allocateProcess, bodies, lookup_insert]
    exact .spawned rfl rfl rfl rfl
  | start live prepared current pid origin =>
    exact step_startProcessExecutionAt rt live prepared current pid origin
  | state current pid => exact step_processState rt current pid
  | postprocess current pid => exact step_processPostprocess rt current pid
  | store current pid nextState => exact step_processStore rt current pid nextState
  | stop current pid reason => exact step_requestProcessStop rt current pid reason
  | abort pid => exact step_abortProcessExecutions rt pid
  | finish live cleanup id => exact step_finishProcessExecution rt live cleanup id

end ProcessRuntime

end Surtr.Eldr.Runtime
