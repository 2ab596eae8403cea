import Surtr.Lib.CountMap
import Surtr.Eldr.ProcessExecution

/-!
# Supervisors and worker sets (`vm.rs`, `process_continuation.rs`)

Creating and refilling a set are continuations that spawn one worker at a time.
The results of callbacks and of acquiring handlers are inputs.
-/

namespace Surtr.Eldr.Runtime
open Surtr.Sindr Surtr.Lib

/-- `WorkerStrategyState`, with the size of its fixed scale. -/
structure WorkerStrategyState where
  init : Int
  min : Int
  max : Int
  size : Int

def WorkerStrategyState.target (strategy : WorkerStrategyState) : Int := strategy.size

structure WorkerSetState where
  supervisorName : String
  workerProcess : String
  target : Int
  members : List Nat
  nextIndex : Nat

def WorkerSetState.without (set : WorkerSetState) (pid : Nat) : WorkerSetState :=
  if pid ∈ set.members ∨ (set.nextIndex ≠ 0 ∧ set.members.length ≤ set.nextIndex) then
    let members := set.members.filter (· ≠ pid)
    { set with
      members := members
      nextIndex := if members.length ≤ set.nextIndex then 0 else set.nextIndex }
  else set

structure WorkerCreation where
  supervisor : String
  processName : String
  strategy : WorkerStrategyState
  members : List Nat

/-- Where a continuation that spawns workers stands: not yet asked for one
(`receiving` is false), below an initialiser, or below an error's constructor. -/
inductive SpawnStage where
  | ready
  | spawning
  | constructing
  deriving DecidableEq

inductive Acquired where
  | bindings
  | metadataError
  | openError

inductive InitResult where
  | ok (state : Value)
  | err
  | failed

structure Supervision where
  rt : ProcessRuntime
  policy : String → Option RuntimeSupervisorPolicy
  lifecycleSinks : Assoc Nat String := ∅
  childTable : Assoc String (List Nat) := ∅
  nextWorkersId : Nat := 0
  workerSets : RuntimeTable WorkerSetState := ∅
  refillingWorkerSets : List Nat := []
  nextTask : Nat := 0
  refills : RuntimeTable (Nat × SpawnStage) := ∅
  creations : RuntimeTable (WorkerCreation × SpawnStage) := ∅

namespace Supervision
variable (s : Supervision)

def children (supervisor : String) : List Nat :=
  (s.childTable.lookup supervisor).getD []

def addSupervisorChild (supervisor : String) (pid : Nat) : Supervision :=
  let children := s.children supervisor
  { s with
    childTable := s.childTable.insert supervisor
      (if pid ∈ children then children else children ++ [pid]) }

def removeSupervisorChild (supervisor : String) (pid : Nat) : Supervision :=
  { s with
    childTable := match s.childTable.lookup supervisor with
      | none => s.childTable
      | some children => s.childTable.insert supervisor (children.filter (· ≠ pid)) }

def specByName (name : String) : Option (Nat × RuntimeProcessSpec) :=
  ((s.rt.specsById.zipIdx.filter fun e => e.1.typeName == name).getLast?).map fun e => (e.2, e.1)

variable (live : PidRef → Bool)

def allocateProcessInstance (address : Nat) (name : String)
    (state : Option Value) (sink : Option String) : Except RuntimeFault Nat × Supervision :=
  match s.specByName name with
  | none => (.error ⟨s!"unknown process spec `{name}` during allocation"⟩, s)
  | some (specId, spec) =>
    let pid := s.rt.nextPid
    if u64Max < pid + 1 then (.error ⟨"process identity allocator exhausted"⟩, s)
    else (.ok pid, { s with
      rt := (s.rt.sweepStoppedIdentities live).allocateProcess specId address spec state
      lifecycleSinks := match sink with
        | some supervisor => s.lifecycleSinks.insert pid supervisor
        | none => s.lifecycleSinks })

def allocateSupervisedWorker (address : Nat)
    (name : String) (state : Option Value) (supervisor : String) :
    Except RuntimeFault Nat × Supervision :=
  match s.allocateProcessInstance live address name state (some supervisor) with
  | (.error fault, s) => (.error fault, s)
  | (.ok pid, s) =>
    match s.lifecycleSinks.lookup pid with
    | none => (.ok pid, s)
    | some supervisor => (.ok pid, s.addSupervisorChild supervisor pid)

def isAdoptableWorker (entry : ProcessInstance) : Bool :=
  match s.rt.specsById[entry.specId]? with
  | none => false
  | some spec =>
    (match entry.status with
      | .runnable | .waiting _ => true
      | _ => false) &&
    entry.acceptance == .accepting && spec.inst == .worker

def supervisorAdopt (supervisor : String) (pid : PidRef) :
    Outcome × Supervision :=
  match s.policy supervisor with
  | none => (.error ⟨s!"unknown supervisor `{supervisor}`"⟩, s)
  | some policy =>
    if !policy.allowAdopt then
      (.ok (.languageError "SupervisorAdoptForbidden" [.str supervisor]), s)
    else if s.rt.stoppedIdentities[pid.id]?.filter live = some pid then
      (.ok (.languageError "SupervisorAdoptWorkerNotLive"
        [.str supervisor, .int pid.id, .str pid.processName]), s)
    else
      match s.rt.processes[pid.id]? with
      | none => (.ok (.languageError "SupervisorAdoptUnknownPid"
          [.int pid.id, .str pid.processName, .str supervisor]), s)
      | some entry =>
        if entry.identity ≠ pid then
          (.ok (.languageError "SupervisorAdoptUnknownPid"
            [.int pid.id, .str pid.processName, .str supervisor]), s)
        else if !s.isAdoptableWorker entry then
          match s.rt.specsById[entry.specId]? with
          | none => (.error ⟨"adopt process references unknown spec"⟩, s)
          | some spec =>
            let kind := if spec.inst ≠ .worker then "SupervisorAdoptNonWorker"
              else "SupervisorAdoptWorkerNotLive"
            (.ok (.languageError kind [.str supervisor, .int pid.id, .str pid.processName]), s)
        else
          let moved := match s.lifecycleSinks.lookup pid.id with
            | some old => if old ≠ supervisor then s.removeSupervisorChild old pid.id else s
            | none => s
          let sunk := { moved with
            lifecycleSinks := moved.lifecycleSinks.insert pid.id supervisor }
          (.ok (.complete (okVmResult .unit)), sunk.addSupervisorChild supervisor pid.id)

def refillWorkerSet (id : Nat) : Supervision :=
  if id ∈ s.refillingWorkerSets then s
  else { s with
    refillingWorkerSets := id :: s.refillingWorkerSets
    refills := s.refills.insert s.nextTask (id, .ready)
    nextTask := s.nextTask + 1 }

def removeWorkerFromSets (pid : Nat) : Supervision :=
  let lacking := s.workerSets.toList.filter fun e =>
    (e.2.without pid).members.length ≠ e.2.members.length &&
      decide ((e.2.without pid).members.length < e.2.target.toNat)
  (lacking.map Prod.fst).foldl refillWorkerSet
    { s with workerSets := s.workerSets.map fun _ set => set.without pid }

def reclaimStoppedProcess (s : Supervision) (live : PidRef → Bool)
    (cleanup : Except RuntimeFault Unit) (pid : Nat) : Except RuntimeFault Unit × Supervision :=
  match s.rt.processes[pid]? with
  | none => (.error ⟨"stopped process body disappeared before reclamation"⟩, s)
  | some _ =>
    let unlisted := match s.lifecycleSinks.lookup pid with
      | some supervisor => s.removeSupervisorChild supervisor pid
      | none => s
    (cleanup, { unlisted with
      rt := (s.rt.reclaimStoppedProcess live cleanup pid).2
      lifecycleSinks := s.lifecycleSinks.erase pid }.removeWorkerFromSets pid)

def finishProcessExecution
    (cleanup : Except RuntimeFault Unit) (id : Nat) : Except RuntimeFault Unit × Supervision :=
  match s.rt.executions[id]? with
  | none => (.error ⟨"process execution finished twice or disappeared"⟩, s)
  | some record =>
    let rt := record.internalFutures.foldl ProcessRuntime.forgetInternalFuture
      { s.rt with executions := s.rt.executions.erase id }
    if rt.isStopping record.pid.id && (rt.executionsOf record.pid.id).isEmpty then
      { s with rt := rt }.reclaimStoppedProcess live cleanup record.pid.id
    else (.ok (), { s with rt := rt })

def searchMembers (s : Supervision) (set : WorkerSetState) :
    List Nat → Except RuntimeFault (Option (Nat × PidRef))
  | [] => .ok none
  | offset :: rest =>
    let index := (set.nextIndex + offset) % set.members.length
    let memberId := set.members.getD index 0
    match s.rt.processes[memberId]? with
    | none => .error ⟨s!"worker pid {memberId} is not registered"⟩
    | some process =>
      if process.identity.kind ≠ .worker ∨ process.identity.processName ≠ set.workerProcess then
        .error ⟨"Workers member identity does not match worker set"⟩
      else if process.acceptance = .accepting then .ok (some (index, process.identity))
      else s.searchMembers set rest

def nextWorkersPid (id : Nat) (processName : String) :
    Except RuntimeFault (Option PidRef) × Supervision :=
  match s.workerSets[id]? with
  | none => (.error ⟨s!"unknown workers handle {id} for {processName}"⟩, s)
  | some set =>
    if set.workerProcess ≠ processName then
      (.error ⟨"workers handle process type mismatch"⟩, s)
    else
      match s.searchMembers set (List.range set.members.length) with
      | .error fault => (.error fault, s)
      | .ok none => (.ok none, s)
      | .ok (some (index, pid)) =>
        (.ok (some pid), { s with
          workerSets := s.workerSets.insert id
            { set with nextIndex := (index + 1) % set.members.length } })

/-- `start_supervisor_workers`, for a strategy that was decoded. -/
def startSupervisorWorkers (supervisor processName : String)
    (strategy : WorkerStrategyState) : Outcome × Supervision :=
  if strategy.init ≠ strategy.target then
    (.ok (.languageError "WorkerStrategyInitTargetMismatch"
      [.int strategy.init, .int strategy.target]), s)
  else if strategy.min < 0 ∨ strategy.target < strategy.min ∨ strategy.max < strategy.target then
    (.ok (.languageError "WorkerStrategyBoundsInvalid"
      [.int strategy.min, .int strategy.target, .int strategy.max]), s)
  else (.ok (.wait s.nextTask), { s with
    creations := s.creations.insert s.nextTask (⟨supervisor, processName, strategy, []⟩, .ready)
    nextTask := s.nextTask + 1 })

def continueWorkers (task : Nat) (c : WorkerCreation) (acquired : Acquired) :
    Supervision :=
  if c.members.length < c.strategy.target.toNat then
    match acquired with
    | .bindings => { s with creations := s.creations.insert task (c, .spawning) }
    | .metadataError => { s with creations := s.creations.erase task }
    | .openError => { s with creations := s.creations.insert task (c, .constructing) }
  else { s with
    creations := s.creations.erase task
    nextWorkersId := s.nextWorkersId + 1
    workerSets := s.workerSets.insert s.nextWorkersId
      { supervisorName := c.supervisor, workerProcess := c.processName
        target := c.strategy.target, members := c.members, nextIndex := 0 } }

def resumeWorkers (address task : Nat)
    (acquired : Acquired) (result : InitResult) : Supervision :=
  match s.creations[task]? with
  | none => s
  | some (c, stage) =>
    match stage, result with
    | .ready, .ok _ => s.continueWorkers task c acquired
    | .spawning, .ok state =>
      match s.allocateSupervisedWorker live address c.processName (some state) c.supervisor with
      | (.error _, s) => { s with creations := s.creations.erase task }
      | (.ok pid, s) => s.continueWorkers task { c with members := c.members ++ [pid] } acquired
    | _, _ => { s with creations := s.creations.erase task }

def endRefill (task id : Nat) : Supervision :=
  { s with
    refills := s.refills.erase task
    refillingWorkerSets := s.refillingWorkerSets.filter (· ≠ id) }

/-- An error between two workers ends a refill and leaves its set registered as
being refilled. -/
def dropRefill (task : Nat) : Supervision :=
  { s with refills := s.refills.erase task }

def continueRefill (task id : Nat) (acquired : Acquired) : Supervision :=
  match s.workerSets[id]? with
  | none => s.dropRefill task
  | some set =>
    if set.target.toNat ≤ set.members.length then s.endRefill task id
    else
      match acquired with
      | .bindings => { s with refills := s.refills.insert task (id, .spawning) }
      | .metadataError => s.dropRefill task
      | .openError => { s with refills := s.refills.insert task (id, .constructing) }

def receiveRefill (task id pid : Nat) (acquired : Acquired) : Supervision :=
  match s.workerSets[id]? with
  | none => s.dropRefill task
  | some set =>
    { s with
      workerSets := s.workerSets.insert id { set with members := set.members ++ [pid] }
      }.continueRefill task id acquired

/-- `constructed` tells whether the error of a refused worker could be built. -/
def resumeRefill (address task : Nat) (acquired : Acquired)
    (constructed : Bool) (result : InitResult) : Supervision :=
  match s.refills[task]? with
  | none => s
  | some (id, stage) =>
    match stage, result with
    | _, .failed => s.endRefill task id
    | .ready, _ => s.continueRefill task id acquired
    | .spawning, .ok state =>
      match s.workerSets[id]? with
      | none => s.endRefill task id
      | some set =>
        match s.allocateSupervisedWorker live address set.workerProcess (some state)
            set.supervisorName with
        | (.error _, s) => s.endRefill task id
        | (.ok pid, s) => s.receiveRefill task id pid acquired
    | _, _ => if constructed then s.endRefill task id else s.dropRefill task

end Supervision

inductive SupervisionOp where
  | spawn (live : PidRef → Bool) (address : Nat) (name : String) (state : Option Value)
      (supervisor : Option String)
  | adopt (live : PidRef → Bool) (supervisor : String) (pid : PidRef)
  | body (event : ProcessEvent)
  | restatus (pid : Nat) (status : ProcessStatus)
  | finish (live : PidRef → Bool) (cleanup : Except RuntimeFault Unit) (id : Nat)
  | workers (supervisor processName : String) (strategy : WorkerStrategyState)
  | resumeWorkers (live : PidRef → Bool) (address task : Nat) (acquired : Acquired)
      (result : InitResult)
  | resumeRefill (live : PidRef → Bool) (address task : Nat) (acquired : Acquired)
      (constructed : Bool) (result : InitResult)
  | next (id : Nat) (processName : String)

namespace Supervision

/-- A worker of a set that is not created yet: nobody has its handle. -/
def isUnborn (s : Supervision) (pid : Nat) : Bool :=
  s.creations.toList.any fun e => e.2.1.members.contains pid

/-- The events of bodies other than spawning and finishing; no execution starts on a
worker nobody has a handle of. -/
def bodyEvent (s : Supervision) (event : ProcessEvent) : Outcome × Supervision :=
  match event with
  | .spawn _ _ _ _ | .finish _ _ _ => (.ok (.complete .unit), s)
  | .start live prepared current pid origin =>
    if s.isUnborn pid.id then (.ok (.complete .unit), s)
    else
      let (outcome, rt) := (ProcessEvent.start live prepared current pid origin).apply s.rt
      (outcome, { s with rt := rt })
  | event =>
    let (outcome, rt) := event.apply s.rt
    (outcome, { s with rt := rt })

end Supervision

def spawnOutcome : Except RuntimeFault Nat → Outcome
  | .ok _ => .ok (.complete .unit)
  | .error fault => .error fault

/-- One operation, with what it returns and the worker that `next` found. -/
def SupervisionOp.exec (s : Supervision) : SupervisionOp → Outcome × Option Nat × Supervision
  | .spawn live address name state (some supervisor) =>
    let (result, s) := s.allocateSupervisedWorker live address name state supervisor
    (spawnOutcome result, none, s)
  | .spawn live address name state none =>
    let (result, s) := s.allocateProcessInstance live address name state none
    (spawnOutcome result, none, s)
  | .adopt live supervisor pid =>
    let (outcome, s) := s.supervisorAdopt live supervisor pid
    (outcome, none, s)
  | .body event =>
    let (outcome, s) := s.bodyEvent event
    (outcome, none, s)
  | .restatus pid status =>
    (.ok (.complete .unit), none, { s with rt := s.rt.setProcessStatus pid status })
  | .finish live cleanup id =>
    let (result, s) := s.finishProcessExecution live cleanup id
    (unitOutcome result, none, s)
  | .workers supervisor processName strategy =>
    let (outcome, s) := s.startSupervisorWorkers supervisor processName strategy
    (outcome, none, s)
  | .resumeWorkers live address task acquired result =>
    (.ok (.complete .unit), none, s.resumeWorkers live address task acquired result)
  | .resumeRefill live address task acquired constructed result =>
    (.ok (.complete .unit), none, s.resumeRefill live address task acquired constructed result)
  | .next id processName =>
    match s.nextWorkersPid id processName with
    | (.ok (some pid), s) => (.ok (.complete .unit), some pid.id, s)
    | (.ok none, s) => (.ok (.complete .unit), none, s)
    | (.error fault, s) => (.error fault, none, s)

namespace Supervision

def step (s : Supervision) (op : SupervisionOp) : Supervision := (op.exec s).2.2

def run (s : Supervision) (ops : List SupervisionOp) : Supervision := ops.foldl step s

def start (specs : List RuntimeProcessSpec) (policy : String → Option RuntimeSupervisorPolicy) :
    Supervision :=
  { rt := { specsById := specs }, policy := policy }

end Supervision

end Surtr.Eldr.Runtime
