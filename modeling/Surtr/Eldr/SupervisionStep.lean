import Surtr.Eldr.Supervision

/-!
# What an operation of supervision can do

The invariants of the child lists and of the worker sets are proved from `OpStep`.
-/

namespace Surtr.Eldr.Runtime
open Surtr.Sindr Surtr.Lib ProcessRuntime SupervisionOp ProcessInstance
open Bodies (setBody setExec)

namespace Supervision

/-- Every process keeps its body, and a new execution is on a body that is there
and has been handed out. -/
structure Ran (s : Supervision) (B : Bodies) : Prop where
  nextPid : B.nextPid = s.rt.bodies.nextPid
  body : ∀ pid, (B.body pid).map identity = (s.rt.bodies.body pid).map identity
  exec : ∀ id record, B.exec id = some record →
    (∃ before, s.rt.bodies.exec id = some before ∧ before.pid = record.pid) ∨
      ((s.rt.bodies.body record.pid.id).isSome = true ∧ s.isUnborn record.pid.id = false)

/-- One more body, under the next number. -/
structure Spawned (s : Supervision) (rt : ProcessRuntime) : Prop where
  nextPid : rt.bodies.nextPid = s.rt.bodies.nextPid + 1
  exec : rt.bodies.exec = s.rt.bodies.exec
  body : ∃ entry : ProcessInstance, entry.identity.id = s.rt.bodies.nextPid ∧
    rt.bodies.body = Function.update s.rt.bodies.body s.rt.bodies.nextPid (some entry)

variable (s : Supervision)

def enlist (sink : Option String) (pid : Nat) : Supervision :=
  match sink with
  | none => s
  | some supervisor =>
    { s with lifecycleSinks := s.lifecycleSinks.insert pid supervisor
      }.addSupervisorChild supervisor pid

def hire (rt : ProcessRuntime) (supervisor : String) : Supervision :=
  { s with rt := rt }.enlist (some supervisor) s.rt.bodies.nextPid

def unlist (supervisor : Option String) (pid : Nat) : Supervision :=
  match s.lifecycleSinks.lookup pid with
  | none => s
  | some old => if some old ≠ supervisor then s.removeSupervisorChild old pid else s

theorem unlist_eq (supervisor : Option String) (pid : Nat) :
    s.unlist supervisor pid = { s with childTable := (s.unlist supervisor pid).childTable } := by
  unfold unlist
  split
  · rfl
  · split <;> rfl

def memberAt (set : WorkerSetState) (offset : Nat) : Nat :=
  set.members.getD ((set.nextIndex + offset) % set.members.length) 0

/-- The search of `next_workers_pid` stops at the member `offset` places on. -/
structure Found (s : Supervision) (set : WorkerSetState) (offset : Nat) (pid : PidRef) : Prop where
  bound : offset < set.members.length
  accepting : ∃ entry, s.rt.bodies.body (memberAt set offset) = some entry ∧
    entry.acceptance = .accepting ∧ entry.identity = pid
  skipped : ∀ o < offset, ∃ entry, s.rt.bodies.body (memberAt set o) = some entry ∧
    entry.acceptance ≠ .accepting

/-- The effects of the operations. Where an effect is listed for every operation,
its proof does not depend on which one has it. -/
inductive OpStep (s : Supervision) : SupervisionOp → Supervision → Prop where
  | same : OpStep s op s
  | ran {rt : ProcessRuntime} (h : s.Ran rt.bodies) : OpStep s op { s with rt := rt }
  | spawned {rt : ProcessRuntime} (sink : Option String) (h : s.Spawned rt) :
      OpStep s op ({ s with rt := rt }.enlist sink s.rt.bodies.nextPid)
  | adopted {pid : Nat} (h : (s.rt.bodies.body pid).isSome = true) :
      OpStep s op ((s.unlist (some supervisor) pid).enlist (some supervisor) pid)
  | reclaimed {id : Nat} {rt : ProcessRuntime} (hexec : s.rt.bodies.exec id = some record)
      (hlast : s.rt.bodies.Last id record)
      (hbodies : rt.bodies = (s.rt.bodies.setExec id none).setBody record.pid.id none) :
      OpStep s (.finish live cleanup id) ({ s.unlist none record.pid.id with
        rt := rt
        lifecycleSinks := s.lifecycleSinks.erase record.pid.id
        }.removeWorkerFromSets record.pid.id)
  | asked {strategy : WorkerStrategyState} (h : 0 ≤ strategy.target) :
      OpStep s op { s with
        creations := s.creations.insert s.nextTask (⟨supervisor, processName, strategy, []⟩, .ready)
        nextTask := s.nextTask + 1 }
  | dismissed (task : Nat) : OpStep s op { s with creations := s.creations.erase task }
  | continued {task : Nat} (h : s.creations[task]? = some (c, .ready)) :
      OpStep s op (s.continueWorkers task c acquired)
  | hired {rt : ProcessRuntime} {task : Nat} {c : WorkerCreation}
      (h : s.creations[task]? = some (c, .spawning)) (hspawned : s.Spawned rt) :
      OpStep s op ((s.hire rt c.supervisor).continueWorkers task
        { c with members := c.members ++ [s.rt.bodies.nextPid] } acquired)
  | refillEnded {task id : Nat} (h : s.refills[task]? = some (id, stage)) :
      OpStep s op (s.endRefill task id)
  | refillDropped {task id : Nat} (h : s.refills[task]? = some (id, stage)) :
      OpStep s (.resumeRefill live address task acquired false result) (s.dropRefill task)
  | refillContinued {task id : Nat} (h : s.refills[task]? = some (id, .ready)) :
      OpStep s (.resumeRefill live address task acquired constructed result)
        (s.continueRefill task id acquired)
  | refillHired {rt : ProcessRuntime} {task id : Nat} {set : WorkerSetState}
      (h : s.refills[task]? = some (id, .spawning)) (hset : s.workerSets[id]? = some set)
      (hspawned : s.Spawned rt) :
      OpStep s (.resumeRefill live address task acquired constructed result)
        ((s.hire rt set.supervisorName).receiveRefill task id s.rt.bodies.nextPid acquired)
  | turned {id : Nat} {set : WorkerSetState} {pid : PidRef}
      (hset : s.workerSets[id]? = some set) (hfound : s.Found set offset pid) :
      OpStep s (.next id processName) { s with
        workerSets := s.workerSets.insert id { set with
          nextIndex := ((set.nextIndex + offset) % set.members.length + 1) % set.members.length } }

variable (live : PidRef → Bool)

theorem spawned_allocate (specId address : Nat) (spec : RuntimeProcessSpec) (state : Option Value) :
    s.Spawned ((s.rt.sweepStoppedIdentities live).allocateProcess specId address spec state) :=
  ⟨rfl, rfl, _, rfl, lookup_insert s.rt.processes s.rt.nextPid _⟩

theorem allocateProcessInstance_cases (address : Nat) (name : String) (state : Option Value) :
    (∃ fault, ∀ sink, s.allocateProcessInstance live address name state sink = (.error fault, s)) ∨
      ∃ rt, s.Spawned rt ∧ ∀ sink, s.allocateProcessInstance live address name state sink =
        (.ok s.rt.bodies.nextPid, { s with
          rt := rt
          lifecycleSinks := match sink with
            | some supervisor => s.lifecycleSinks.insert s.rt.bodies.nextPid supervisor
            | none => s.lifecycleSinks }) := by
  unfold allocateProcessInstance
  cases s.specByName name with
  | none => exact .inl ⟨_, fun _ => rfl⟩
  | some found =>
    by_cases hfull : u64Max < s.rt.nextPid + 1
    · refine .inl ⟨⟨"process identity allocator exhausted"⟩, fun sink => ?_⟩
      dsimp only
      rw [if_pos hfull]
    · refine .inr ⟨_, spawned_allocate s live found.1 address found.2 state, fun sink => ?_⟩
      dsimp only
      rw [if_neg hfull]
      rfl

theorem allocateSupervisedWorker_cases (address : Nat)
    (name : String) (state : Option Value) (supervisor : String) :
    (∃ fault, s.allocateSupervisedWorker live address name state supervisor = (.error fault, s)) ∨
      ∃ rt, s.Spawned rt ∧ s.allocateSupervisedWorker live address name state supervisor =
        (.ok s.rt.bodies.nextPid, s.hire rt supervisor) := by
  rcases allocateProcessInstance_cases s live address name state with ⟨fault, h⟩ | ⟨rt, hrt, h⟩
  · refine .inl ⟨fault, ?_⟩
    rw [allocateSupervisedWorker, h]
  refine .inr ⟨rt, hrt, ?_⟩
  rw [allocateSupervisedWorker, h]
  dsimp only
  rw [AList.lookup_insert]
  rfl

theorem Ran.refl : s.Ran s.rt.bodies :=
  ⟨rfl, fun _ => rfl, fun _ record hexec => .inl ⟨record, hexec, rfl⟩⟩

theorem map_identity_setBody {B : Bodies} {pid : Nat} {entry entry' : ProcessInstance}
    (hbody : B.body pid = some entry) (hsame : entry'.identity = entry.identity) (pid' : Nat) :
    ((B.setBody pid (some entry')).body pid').map identity =
      (B.body pid').map identity := by
  by_cases heq : pid' = pid
  · subst heq
    simp [setBody, hbody, hsame]
  · simp [setBody, heq]

theorem exec_setExec {B : Bodies} {id : Nat} {record record' : ProcessExecutionRecord}
    (hexec : B.exec id = some record) {id' : Nat} {r : ProcessExecutionRecord}
    (h : (B.setExec id (some record')).exec id' = some r) (hsame : record'.pid = record.pid) :
    ∃ before, B.exec id' = some before ∧ before.pid = r.pid := by
  by_cases heq : id' = id
  · subst heq
    simp only [setExec, Function.update_self, Option.some.injEq] at h
    subst h
    exact ⟨record, hexec, hsame.symm⟩
  · simp only [setExec, Function.update_of_ne heq] at h
    exact ⟨r, h, rfl⟩

variable {s} in
theorem ran_of_event {event : ProcessEvent} {outcome : Outcome} {B : Bodies}
    (h : s.rt.bodies.EventStep event outcome B)
    (hspawn : ∀ specId address spec state, event ≠ .spawn specId address spec state)
    (hfin : event.isFinish = false)
    (hstart : ∀ live prepared current pid origin, event = .start live prepared current pid origin →
      s.isUnborn pid.id = false) : s.Ran B := by
  cases h with
  | refused | stoppedAgain => exact .refl s
  | spawned => exact absurd rfl (hspawn _ _ _ _)
  | unprepared => exact ⟨rfl, fun _ => rfl, fun _ record hexec => .inl ⟨record, hexec, rfl⟩⟩
  | accepted hbody hacc hpid hstage hstored hstate =>
    refine ⟨rfl, fun _ => rfl, fun id r hexec => ?_⟩
    by_cases heq : id = s.rt.bodies.nextExecution
    · simp only [setExec, heq, Function.update_self, Option.some.injEq] at hexec
      subst hexec
      rw [hpid]
      exact .inr ⟨by rw [hbody]; rfl, hstart _ _ _ _ _ rfl⟩
    · simp only [setExec, Function.update_of_ne heq] at hexec
      exact .inl ⟨r, hexec, rfl⟩
  | read hexec | postprocessed hexec =>
    exact ⟨rfl, fun _ => rfl, fun id r hr => .inl (exec_setExec hexec hr rfl)⟩
  | stored hexec hpid hstage hstored hbody =>
    exact ⟨rfl, map_identity_setBody hbody rfl, fun id r hr => .inl (exec_setExec hexec hr rfl)⟩
  | stopped hexec hpid hstage hbody | aborted hbody =>
    exact ⟨rfl, map_identity_setBody hbody rfl, fun id r hr => .inl ⟨r, hr, rfl⟩⟩
  | finished | reclaimed => cases hfin

theorem bodyEvent_step (event : ProcessEvent) : OpStep s (.body event) (s.bodyEvent event).2 := by
  have hevent := step_event s.rt event
  cases event with
  | spawn specId address spec state => exact .same
  | finish live cleanup id => exact .same
  | start live prepared current pid origin =>
    rw [bodyEvent]
    by_cases hunborn : s.isUnborn pid.id = true
    · rw [if_pos hunborn]
      exact .same
    rw [if_neg hunborn]
    refine .ran (ran_of_event hevent (by intros; simp) rfl ?_)
    intro _ _ _ pid' _ heq
    cases heq
    exact Bool.not_eq_true _ ▸ hunborn
  | state | postprocess | store | stop | abort =>
    exact .ran (ran_of_event hevent (by intros; simp) rfl (by intros; contradiction))

theorem setProcessStatus_step (pid : Nat) (status : ProcessStatus) :
    OpStep s (.restatus pid status) { s with rt := s.rt.setProcessStatus pid status } := by
  refine .ran ?_
  unfold setProcessStatus
  cases hbody : s.rt.processes[pid]? with
  | none => exact .refl s
  | some entry =>
    have hset : ({ s.rt with processes := s.rt.processes.insert pid { entry with status } } :
        ProcessRuntime).bodies = s.rt.bodies.setBody pid (some { entry with status }) := by
      simp only [bodies, setBody, lookup_insert]
    dsimp only
    rw [hset]
    exact ⟨rfl, map_identity_setBody hbody rfl, fun id r hr => .inl ⟨r, hr, rfl⟩⟩

theorem supervisorAdopt_cases (supervisor : String) (pid : PidRef) :
    ((s.supervisorAdopt live supervisor pid).1.isComplete = false ∧
        (s.supervisorAdopt live supervisor pid).2 = s) ∨
      ((s.supervisorAdopt live supervisor pid).1.isComplete = true ∧
        (s.rt.bodies.body pid.id).isSome = true ∧ (s.supervisorAdopt live supervisor pid).2 =
          (s.unlist (some supervisor) pid.id).enlist (some supervisor) pid.id) := by
  fun_cases supervisorAdopt s live supervisor pid with
  | case8 policy _ _ _ entry hbody _ _ moved sunk =>
    have hlive : s.rt.bodies.body pid.id = some entry := hbody
    refine .inr ⟨rfl, by rw [hlive]; rfl, ?_⟩
    have hmoved : moved = s.unlist (some supervisor) pid.id := by
      simp only [moved, unlist, ne_eq, Option.some.injEq]
      cases s.lifecycleSinks.lookup pid.id <;> rfl
    simp only [sunk, hmoved]
    rfl
  | _ => exact .inl ⟨rfl, rfl⟩

theorem finishProcessExecution_step (cleanup : Except RuntimeFault Unit) (id : Nat) :
    OpStep s (.finish live cleanup id) (s.finishProcessExecution live cleanup id).2 := by
  unfold finishProcessExecution
  cases hexec : s.rt.executions[id]? with
  | none => exact .same
  | some record =>
    have hbodies := bodies_closeExecution s.rt id record.internalFutures
    dsimp only
    generalize record.internalFutures.foldl forgetInternalFuture
      { s.rt with executions := s.rt.executions.erase id } = rest at hbodies ⊢
    split
    · rename_i h
      obtain ⟨entry, hbody, _⟩ :=
        (isStopping_iff rest record.pid.id).mp (Bool.and_eq_true _ _ ▸ h).1
      obtain ⟨-, hreclaim⟩ := reclaimStoppedProcess_of_live live cleanup hbody
      have hget : rest.processes[record.pid.id]? = some entry := hbody
      have hlast := (reclaims_iff hbodies).mp h
      rw [hbodies] at hreclaim
      have hstep : OpStep s (.finish live cleanup id) _ := .reclaimed hexec hlast hreclaim
      rw [unlist] at hstep
      rw [reclaimStoppedProcess, hget]
      dsimp only
      cases hsink : s.lifecycleSinks.lookup record.pid.id with
      | none =>
        rw [hsink] at hstep
        exact hstep
      | some supervisor =>
        rw [hsink] at hstep
        dsimp only at hstep
        rw [if_pos (Option.some_ne_none supervisor)] at hstep
        exact hstep
    · refine .ran ?_
      rw [hbodies]
      refine ⟨rfl, fun _ => rfl, fun id' r hr => ?_⟩
      by_cases heq : id' = id
      · simp [setExec, heq] at hr
      · simp only [setExec, Function.update_of_ne heq] at hr
        exact .inl ⟨r, hr, rfl⟩

theorem startSupervisorWorkers_step (supervisor processName : String)
    (strategy : WorkerStrategyState) : OpStep s (.workers supervisor processName strategy)
      (s.startSupervisorWorkers supervisor processName strategy).2 := by
  unfold startSupervisorWorkers
  split
  · exact .same
  split
  · exact .same
  · rename_i hbounds
    exact .asked (by omega)

theorem resumeWorkers_step (address task : Nat) (acquired : Acquired) (result : InitResult) :
    OpStep s (.resumeWorkers live address task acquired result)
      (s.resumeWorkers live address task acquired result) := by
  unfold resumeWorkers
  cases hc : s.creations[task]? with
  | none => exact .same
  | some entry =>
    obtain ⟨c, stage⟩ := entry
    dsimp only
    split
    · exact .continued hc
    · rename_i state
      rcases allocateSupervisedWorker_cases s live address c.processName (some state) c.supervisor
        with ⟨fault, h⟩ | ⟨rt, hrt, h⟩
      · rw [h]
        exact .dismissed task
      · rw [h]
        exact .hired hc hrt
    · exact .dismissed task

theorem resumeRefill_step (address task : Nat)
    (acquired : Acquired) (constructed : Bool) (result : InitResult) :
    OpStep s (.resumeRefill live address task acquired constructed result)
      (s.resumeRefill live address task acquired constructed result) := by
  unfold resumeRefill
  cases hr : s.refills[task]? with
  | none => exact .same
  | some entry =>
    obtain ⟨id, stage⟩ := entry
    dsimp only
    split
    · exact .refillEnded hr
    · exact .refillContinued hr
    · rename_i state
      cases hset : s.workerSets[id]? with
      | none => exact .refillEnded hr
      | some set =>
        dsimp only
        rcases allocateSupervisedWorker_cases s live address set.workerProcess (some state)
          set.supervisorName with ⟨fault, h⟩ | ⟨rt, hrt, h⟩
        · rw [h]
          exact .refillEnded hr
        · rw [h]
          exact .refillHired hr hset hrt
    · cases constructed with
      | true => exact .refillEnded hr
      | false => exact .refillDropped hr

theorem searchMembers_some {s : Supervision} {set : WorkerSetState} {n : Nat} {found : Nat × PidRef}
    (offsets : List Nat) (skipped : Nat) (hrange : offsets = List.range' skipped n)
    (h : s.searchMembers set offsets = .ok (some found)) :
    ∃ offset entry, skipped ≤ offset ∧ offset < skipped + n ∧
      found.1 = (set.nextIndex + offset) % set.members.length ∧
      s.rt.bodies.body (set.members.getD found.1 0) = some entry ∧
      entry.acceptance = .accepting ∧ entry.identity = found.2 ∧
      ∀ o, skipped ≤ o → o < offset → ∃ entry, s.rt.bodies.body (set.members.getD
        ((set.nextIndex + o) % set.members.length) 0) = some entry ∧
          entry.acceptance ≠ .accepting := by
  induction n generalizing offsets skipped with
  | zero =>
    subst hrange
    simp [searchMembers] at h
  | succ n ih =>
    rw [List.range'_succ] at hrange
    subst hrange
    rw [searchMembers] at h
    cases hbody : s.rt.processes[set.members.getD
        ((set.nextIndex + skipped) % set.members.length) 0]? with
    | none =>
      rw [hbody] at h
      cases h
    | some entry =>
      rw [hbody] at h
      dsimp only at h
      split at h
      · cases h
      split at h
      · rename_i hacc
        cases h
        exact ⟨skipped, entry, le_refl _, by omega, rfl, hbody, hacc, rfl, fun o h₁ h₂ => by omega⟩
      · rename_i hbusy
        obtain ⟨offset, entry', hle, hlt, hindex, hlive, hacc, hid, hskip⟩ :=
          ih _ (skipped + 1) rfl h
        refine ⟨offset, entry', by omega, by omega, hindex, hlive, hacc, hid, fun o h₁ h₂ => ?_⟩
        by_cases heq : o = skipped
        · subst heq
          exact ⟨entry, hbody, hbusy⟩
        · exact hskip o (by omega) h₂

theorem nextWorkersPid_cases (id : Nat) (processName : String) :
    ((∀ pid, (s.nextWorkersPid id processName).1 ≠ .ok (some pid)) ∧
        (s.nextWorkersPid id processName).2 = s) ∨
      ∃ set offset pid, s.workerSets[id]? = some set ∧ s.Found set offset pid ∧
        s.nextWorkersPid id processName = (.ok (some pid), { s with
          workerSets := s.workerSets.insert id { set with
            nextIndex := ((set.nextIndex + offset) % set.members.length + 1) %
              set.members.length } }) := by
  unfold nextWorkersPid
  cases hset : s.workerSets[id]? with
  | none => exact .inl ⟨nofun, rfl⟩
  | some set =>
    dsimp only
    split
    · exact .inl ⟨nofun, rfl⟩
    cases hsearch : s.searchMembers set (List.range set.members.length) with
    | error fault => exact .inl ⟨nofun, rfl⟩
    | ok result =>
      cases result with
      | none => exact .inl ⟨nofun, rfl⟩
      | some found =>
        obtain ⟨offset, entry, -, hlt, hindex, hbody, hacc, hid, hskip⟩ :=
          searchMembers_some _ 0 List.range_eq_range' hsearch
        rw [hindex] at hbody
        refine .inr ⟨set, offset, found.2, rfl, ⟨by omega, ⟨entry, hbody, hacc, hid⟩,
          fun o ho => hskip o (Nat.zero_le o) ho⟩, ?_⟩
        rw [← hindex]

theorem step_next (id : Nat) (processName : String) :
    s.step (.next id processName) = (s.nextWorkersPid id processName).2 := by
  rw [step, exec]
  split <;> simp [*]

theorem exec_step (op : SupervisionOp) : OpStep s op (s.step op) := by
  cases op with
  | spawn live address name state supervisor =>
    cases supervisor with
    | none =>
      rcases allocateProcessInstance_cases s live address name state with ⟨fault, h⟩ | ⟨rt, hrt, h⟩
      · simp only [step, exec, h]
        exact .same
      · simp only [step, exec, h]
        exact .spawned none hrt
    | some supervisor =>
      rcases allocateSupervisedWorker_cases s live address name state supervisor
        with ⟨fault, h⟩ | ⟨rt, hrt, h⟩
      · simp only [step, exec, h]
        exact .same
      · simp only [step, exec, h]
        exact .spawned (some supervisor) hrt
  | adopt live supervisor pid =>
    rcases supervisorAdopt_cases s live supervisor pid with ⟨-, h⟩ | ⟨-, hlive, h⟩
    · simp only [step, exec, h]
      exact .same
    · simp only [step, exec, h]
      exact .adopted hlive
  | body event => exact bodyEvent_step s event
  | restatus pid status => exact setProcessStatus_step s pid status
  | finish live cleanup id => exact finishProcessExecution_step s live cleanup id
  | workers supervisor processName strategy =>
    exact startSupervisorWorkers_step s supervisor processName strategy
  | resumeWorkers live address task acquired result =>
    exact resumeWorkers_step s live address task acquired result
  | resumeRefill live address task acquired constructed result =>
    exact resumeRefill_step s live address task acquired constructed result
  | next id processName =>
    rcases nextWorkersPid_cases s id processName with ⟨hnone, h⟩ | ⟨set, _, pid, hset, hfound, h⟩
    · rw [step_next, h]
      exact .same
    · rw [step_next, h]
      exact .turned hset hfound

end Supervision

end Surtr.Eldr.Runtime
