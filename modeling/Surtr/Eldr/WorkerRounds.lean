import Surtr.Eldr.WorkerSets

/-!
# Worker sets along a run

A set changes by one turn of a ring at a time (`Ring.Turn`).
-/

namespace Surtr.Eldr.Runtime
open List hiding lookup
open Surtr.Sindr Surtr.Lib WorkerSetState

namespace Supervision

inductive SetChange (s s' : Supervision) :
    SupervisionOp → Nat → WorkerSetState → WorkerSetState → Prop where
  | same : SetChange s s' op n ws ws
  | joined (pid : Nat) : SetChange s s' op n ws { ws with members := ws.members ++ [pid] }
  | left {set : WorkerSetState}
      (hexec : s.rt.bodies.exec exec = some record) (hlast : s.rt.bodies.Last exec record)
      (hrefill : (set.without record.pid.id).members.length < set.members.length →
        (set.without record.pid.id).members.length < set.target.toNat →
          n ∈ s'.refillingWorkerSets) :
      SetChange s s' (.finish live cleanup exec) n set (set.without record.pid.id)
  | turned {set : WorkerSetState} (hfound : s.Found set offset pid) :
      SetChange s s' (.next n processName) n set { set with
        nextIndex := ((set.nextIndex + offset) % set.members.length + 1) % set.members.length }

variable {s : Supervision} {id : Nat} {set : WorkerSetState}

theorem workerSets_enlist (s : Supervision) (supervisor : Option String) (pid : Nat) :
    (s.enlist supervisor pid).workerSets = s.workerSets := by
  cases supervisor <;> rfl

theorem workerSets_foldl_refill (ids : List Nat) (s : Supervision) :
    (ids.foldl refillWorkerSet s).workerSets = s.workerSets := by
  induction ids generalizing s with
  | nil => rfl
  | cons id rest ih =>
    rw [foldl_cons, ih, refillWorkerSet]
    split <;> rfl

theorem workerSets_continueRefill (s : Supervision) (task id : Nat) (acquired : Acquired) :
    (s.continueRefill task id acquired).workerSets = s.workerSets := by
  unfold continueRefill
  cases s.workerSets[id]? with
  | none => rfl
  | some set =>
    dsimp only
    split
    · rfl
    · cases acquired <;> rfl

theorem workerSets_continueWorkers
    (hset : s.workerSets[id]? = some set) (hid : id < s.nextWorkersId) (task : Nat)
    (c : WorkerCreation) (acquired : Acquired) :
    (s.continueWorkers task c acquired).workerSets[id]? = some set := by
  unfold continueWorkers
  split
  · cases acquired <;> exact hset
  rw [getElem?_insert_eq, if_neg (Nat.ne_of_lt hid)]
  exact hset

theorem mem_refilling_foldl {ids : List Nat} (h : id ∈ ids ∨ id ∈ s.refillingWorkerSets) :
    id ∈ (ids.foldl refillWorkerSet s).refillingWorkerSets := by
  induction ids generalizing s with
  | nil => exact h.resolve_left (by simp)
  | cons id' rest ih =>
    refine ih ?_
    have hadd : ∀ i, i = id' ∨ i ∈ s.refillingWorkerSets →
        i ∈ (s.refillWorkerSet id').refillingWorkerSets := by
      intro i hi
      unfold refillWorkerSet
      split
      · rename_i hmem
        rcases hi with rfl | hi
        · exact hmem
        · exact hi
      · exact mem_cons.mpr hi
    rcases h with h | h
    · rcases mem_cons.mp h with h | h
      · exact .inr (hadd id (.inl h))
      · exact .inl h
    · exact .inr (hadd id (.inr h))

variable {op : SupervisionOp}

theorem OpStep.setChange {s' : Supervision} (h : s.SetsKept none)
    (hstep : s.OpStep op s') (hset : s.workerSets[id]? = some set) :
    ∃ set' : WorkerSetState, s'.workerSets[id]? = some set' ∧ SetChange s s' op id set set' := by
  have hid := h.numbered id set hset
  cases hstep with
  | same | ran | asked | dismissed | refillEnded | refillDropped => exact ⟨set, hset, .same⟩
  | spawned sink hrt => exact ⟨set, by rw [workerSets_enlist]; exact hset, .same⟩
  | adopted hlive =>
    refine ⟨set, ?_, .same⟩
    rw [workerSets_enlist, unlist_eq]
    exact hset
  | reclaimed hexec hlast hbodies =>
    refine ⟨_, ?_, .left hexec hlast fun hless hlacks => ?_⟩
    · rw [removeWorkerFromSets_eq, workerSets_foldl_refill, unlist_eq]
      exact getElem?_map_without_of_some hset _
    · rw [removeWorkerFromSets_eq, unlist_eq]
      exact mem_refilling_foldl (.inl (mem_lacking.mpr ⟨set, hset, Nat.ne_of_lt hless, hlacks⟩))
  | continued hc => exact ⟨set, workerSets_continueWorkers hset hid _ _ _, .same⟩
  | @hired _ _ rt _ c hc hrt =>
    have hset' : (s.hire rt c.supervisor).workerSets[id]? = some set := hset
    exact ⟨set, workerSets_continueWorkers hset' hid _ _ _, .same⟩
  | refillContinued hr => exact ⟨set, by rw [workerSets_continueRefill]; exact hset, .same⟩
  | @refillHired _ _ _ _ _ rt task id' set' hr hset' hrt =>
    have hhired : (s.hire rt set'.supervisorName).workerSets[id']? = some set' := hset'
    rw [receiveRefill, hhired, workerSets_continueRefill]
    rw [getElem?_insert_eq]
    split
    · rename_i heq
      rw [heq, hset'] at hset
      cases hset
      exact ⟨_, rfl, .joined _⟩
    · exact ⟨set, hset, .same⟩
  | @turned offset _ id' set' pid hset' hfound =>
    rw [getElem?_insert_eq]
    split
    · rename_i heq
      subst heq
      rw [hset'] at hset
      cases hset
      exact ⟨_, rfl, .turned hfound⟩
    · exact ⟨set, hset, .same⟩

theorem SetChange.target {s' : Supervision}
    {set' : WorkerSetState} (h : SetChange s s' op id set set') : set'.target = set.target := by
  cases h with
  | same | joined | turned => rfl
  | left hexec hlast hrefill => rw [without_eq]

def reclaims (s : Supervision) (exec : Nat) : Option Nat :=
  match s.rt.executions[exec]? with
  | none => none
  | some record =>
    if s.rt.isStopping record.pid.id &&
        ({ s.rt with executions := s.rt.executions.erase exec }.executionsOf record.pid.id).isEmpty
    then some record.pid.id else none

theorem reclaims_of_last {exec : Nat} {record : ProcessExecutionRecord}
    (hexec : s.rt.bodies.exec exec = some record) (hlast : s.rt.bodies.Last exec record) :
    s.reclaims exec = some record.pid.id := by
  have hbodies := ProcessRuntime.bodies_closeExecution s.rt exec []
  have hget : s.rt.executions[exec]? = some record := hexec
  rw [reclaims, hget]
  exact if_pos ((ProcessRuntime.reclaims_iff hbodies).mpr hlast)

/-- No worker that stands before the cursor of its set is reclaimed, and no refill is
given up between two workers. -/
def undisturbed (s : Supervision) : SupervisionOp → Bool
  | .finish _ _ exec =>
    match s.reclaims exec with
    | none => true
    | some pid =>
      s.workerSets.toList.all fun e => !(e.2.members.take e.2.nextIndex).contains pid
  | .resumeRefill _ _ _ .metadataError _ _ => false
  | .resumeRefill _ _ _ _ constructed _ => constructed
  | _ => true

def undisturbedRun : Supervision → List SupervisionOp → Bool
  | _, [] => true
  | s, op :: ops => s.undisturbed op && (s.step op).undisturbedRun ops

theorem not_before_cursor {live : PidRef → Bool}
    {cleanup : Except RuntimeFault Unit} {exec : Nat} {record : ProcessExecutionRecord}
    (h : s.undisturbed (.finish live cleanup exec) = true)
    (hexec : s.rt.bodies.exec exec = some record) (hlast : s.rt.bodies.Last exec record)
    (hset : s.workerSets[id]? = some set) : record.pid.id ∉ set.members.take set.nextIndex := by
  rw [undisturbed, reclaims_of_last hexec hlast] at h
  have hmem := Std.TreeMap.mem_toList_iff_getElem?_eq_some.mpr hset
  simpa using all_eq_true.mp h (id, set) hmem

def Accepting (s : Supervision) (pid : Nat) : Prop :=
  ∃ entry, s.rt.bodies.body pid = some entry ∧ entry.acceptance = .accepting

def found (s : Supervision) (id : Nat) : SupervisionOp → Option Nat
  | .next id' processName =>
    if id' = id then ((SupervisionOp.next id' processName).exec s).2.1 else none
  | _ => none

def returned (id : Nat) : Supervision → List SupervisionOp → List Nat
  | _, [] => []
  | s, op :: ops => (s.found id op).toList ++ returned id (s.step op) ops

def isAcceptingMember (s : Supervision) (id pid : Nat) : Bool :=
  match s.workerSets[id]?, s.rt.processes[pid]? with
  | some set, some entry => set.members.contains pid && entry.acceptance == .accepting
  | _, _ => false

def StaysAccepting (s : Supervision) (ops : List SupervisionOp) (id pid : Nat) : Prop :=
  ∀ k ≤ ops.length, (s.run (ops.take k)).isAcceptingMember id pid = true

instance (s : Supervision) (ops : List SupervisionOp) (id pid : Nat) :
    Decidable (s.StaysAccepting ops id pid) :=
  inferInstanceAs (Decidable (∀ k ≤ ops.length, _))

end Supervision

def WorkerSetState.ring {live : Nat → Prop} {set : WorkerSetState} (h : set.Kept live) {bound : Nat}
    (hbound : set.target.toNat = bound) : Ring Nat bound where
  members := set.members
  cursor := set.nextIndex
  nodup := h.nodup
  bounded := hbound ▸ h.bounded
  valid := h.valid

namespace Supervision

variable {set : WorkerSetState} {bound offset id pid task : Nat} {s : Supervision}
  {op : SupervisionOp} {ops : List SupervisionOp} {stage : SpawnStage}

theorem order_memberAt {live : Nat → Prop} (h : set.Kept live)
    (hbound : set.target.toNat = bound) (hlt : offset < set.members.length) :
    (ring h hbound).order[offset]? = some (memberAt set offset) := by
  have hmod := Nat.mod_lt (offset + set.nextIndex) (Nat.zero_lt_of_lt hlt)
  have hrotate : (ring h hbound).order[offset]? =
      set.members[(offset + set.nextIndex) % set.members.length]? := getElem?_rotate hlt
  rw [hrotate, memberAt, Nat.add_comm set.nextIndex, getD_eq_getElem?_getD,
    getElem?_eq_getElem hmod, Option.getD_some]

theorem found_next {processName : String}
    {pid : PidRef} (h : s.SetsKept none) (hfound : s.Found set offset pid)
    (hnext : (s.nextWorkersPid id processName).1 = .ok (some pid)) :
    s.found id (.next id processName) = some (memberAt set offset) := by
  obtain ⟨entry, hbody, -, hid⟩ := hfound.accepting
  have hmember : pid.id = memberAt set offset := by
    rw [← hid]
    exact h.identity _ entry hbody
  rw [found, if_pos rfl, SupervisionOp.exec, ← hmember]
  split
  all_goals
    rename_i heq
    rw [heq] at hnext
    cases hnext
  rfl

theorem found_next_none {processName : String}
    (hnext : ∀ pid, (s.nextWorkersPid id processName).1 ≠ .ok (some pid)) (id' : Nat) :
    s.found id' (.next id processName) = none := by
  rw [found]
  split
  · rw [SupervisionOp.exec]
    split
    · rename_i pid _ heq
      exact absurd (by rw [heq]) (hnext pid)
    · rfl
    · rfl
  · rfl

theorem Found.not_accepting {pid : PidRef}
    (h : s.Found set offset pid) {o : Nat} (ho : o < offset) : ¬s.Accepting (memberAt set o) := by
  rintro ⟨entry, hbody, hacc⟩
  obtain ⟨entry', hbody', hbusy⟩ := h.skipped o ho
  rw [hbody] at hbody'
  cases hbody'
  exact hbusy hacc

theorem SetChange.turn {s' : Supervision} {set' : WorkerSetState} {live live' : Nat → Prop}
    (hchange : SetChange s s' op id set set')
    (hop : s.undisturbed op = true) (hnext : ∀ id' processName, op ≠ .next id' processName)
    (hset : s.workerSets[id]? = some set) (h : set.Kept live) (h' : set'.Kept live')
    (hbound : set.target.toNat = bound) (hbound' : set'.target.toNat = bound) :
    Ring.Turn s.Accepting (ring h hbound) (ring h' hbound') none := by
  cases hchange with
  | same => exact .same rfl rfl
  | joined pid => exact .added rfl rfl
  | left hexec hlast hrefill =>
    have hbefore := not_before_cursor hop hexec hlast hset
    refine .removed hbefore ?_ ?_
    · simp only [ring, without_eq]
    · simp only [ring, without_eq]
  | turned hfound => exact absurd rfl (hnext _ _)

theorem turn_step (h : s.SetsKept none) (hop : s.undisturbed op = true)
    (hset : s.workerSets[id]? = some set) (hbound : set.target.toNat = bound) :
    ∃ (set' : WorkerSetState) (hset' : (s.step op).workerSets[id]? = some set')
      (hbound' : set'.target.toNat = bound),
      Ring.Turn s.Accepting (ring (h.sets id set hset) hbound)
        (ring ((h.step (exec_step s op)).sets id set' hset') hbound')
        (s.found id op) := by
  by_cases hnext : ∀ id' processName, op ≠ .next id' processName
  · obtain ⟨set', hset', hchange⟩ := OpStep.setChange h (exec_step s op) hset
    have hbound' : set'.target.toNat = bound := by rw [hchange.target, hbound]
    have hnone : s.found id op = none := by
      cases op <;> first | rfl | exact absurd rfl (hnext _ _)
    refine ⟨set', hset', hbound', ?_⟩
    rw [hnone]
    exact hchange.turn hop hnext hset _ _ hbound hbound'
  · simp only [ne_eq, not_forall, not_not] at hnext
    obtain ⟨id', processName, rfl⟩ := hnext
    rcases nextWorkersPid_cases s id' processName with
      ⟨hnone, hstay⟩ | ⟨set₀, offset, pid, hset₀, hfound, hturn⟩
    · have hset' : (s.step (.next id' processName)).workerSets[id]? = some set := by
        rw [step_next, hstay]
        exact hset
      refine ⟨set, hset', hbound, ?_⟩
      rw [found_next_none hnone]
      exact .same rfl rfl
    · by_cases heq : id' = id
      · subst heq
        rw [hset] at hset₀
        cases hset₀
        refine ⟨{ set with nextIndex := ((set.nextIndex + offset) % set.members.length + 1) %
          set.members.length }, ?_, hbound, ?_⟩
        · rw [step_next, hturn]
          rw [getElem?_insert_eq, if_pos rfl]
        · rw [found_next h hfound (by rw [hturn])]
          refine .returned (order_memberAt _ hbound hfound.bound) (fun o ho b hb => ?_) rfl rfl
          rw [order_memberAt _ hbound (ho.trans hfound.bound)] at hb
          cases hb
          exact hfound.not_accepting ho
      · have hset' : (s.step (.next id' processName)).workerSets[id]? = some set := by
          rw [step_next, hturn]
          rw [getElem?_insert_eq, if_neg (Ne.symm heq)]
          exact hset
        refine ⟨set, hset', hbound, ?_⟩
        rw [found, if_neg heq]
        exact .same rfl rfl

theorem run_cons (s : Supervision) (op : SupervisionOp) (ops : List SupervisionOp) :
    s.run (op :: ops) = (s.step op).run ops := rfl

theorem StaysAccepting.tail (h : s.StaysAccepting (op :: ops) id pid) :
    (s.step op).StaysAccepting ops id pid :=
  fun k hk => h (k + 1) (Nat.succ_le_succ hk)

theorem StaysAccepting.mem (h : s.StaysAccepting ops id pid)
    (hset : s.workerSets[id]? = some set) : s.Accepting pid ∧ pid ∈ set.members := by
  have hmember : s.isAcceptingMember id pid = true := h 0 (Nat.zero_le _)
  cases hbody : s.rt.processes[pid]? with
  | none =>
    rw [isAcceptingMember, hset, hbody] at hmember
    cases hmember
  | some entry =>
    rw [isAcceptingMember, hset, hbody] at hmember
    simp only [Bool.and_eq_true, contains_iff_mem, beq_iff_eq] at hmember
    exact ⟨⟨entry, hbody, hmember.2⟩, hmember.1⟩

theorem turns_run (h : s.SetsKept none) (hops : s.undisturbedRun ops = true)
    (hset : s.workerSets[id]? = some set) (hbound : set.target.toNat = bound)
    {stays : Nat → Prop} (hstays : ∀ pid, stays pid → s.StaysAccepting ops id pid) :
    ∃ r : Ring Nat bound, Ring.Turns stays (ring (h.sets id set hset) hbound)
      (returned id s ops) r := by
  induction ops generalizing s set with
  | nil => exact ⟨_, .nil fun pid hp => ((hstays pid hp).mem hset).2⟩
  | cons op ops ih =>
    rw [undisturbedRun, Bool.and_eq_true] at hops
    obtain ⟨set', hset', hbound', hturn⟩ := turn_step h hops.1 hset hbound
    obtain ⟨r, hrest⟩ := ih (h.step (exec_step s op)) hops.2 hset' hbound'
      fun pid hp => (hstays pid hp).tail
    exact ⟨r, .cons (fun pid hp => (hstays pid hp).mem hset) hturn hrest⟩

def InFlight (s : Supervision) : Prop :=
  ∀ id ∈ s.refillingWorkerSets, ∃ (task : Nat) (stage : SpawnStage),
    s.refills[task]? = some (id, stage)

section
variable (h : s.InFlight)
include h

theorem InFlight.refillWorkerSet (hkept : ∀ (task id : Nat)
    (stage : SpawnStage), s.refills[task]? = some (id, stage) → task < s.nextTask) (id : Nat) :
    (s.refillWorkerSet id).InFlight := by
  unfold Supervision.refillWorkerSet
  split
  · exact h
  intro id' hid'
  rcases mem_cons.mp hid' with rfl | hid'
  · exact ⟨s.nextTask, .ready, by rw [getElem?_insert_eq, if_pos rfl]⟩
  obtain ⟨task, stage, hr⟩ := h id' hid'
  refine ⟨task, stage, ?_⟩
  rw [getElem?_insert_eq, if_neg (Nat.ne_of_lt (hkept task id' stage hr))]
  exact hr

theorem InFlight.foldl_refillWorkerSet (hkept : s.SetsKept none)
    {ids : List Nat} (hids : ∀ id ∈ ids, ∃ set : WorkerSetState, s.workerSets[id]? = some set) :
    (ids.foldl Supervision.refillWorkerSet s).InFlight := by
  induction ids generalizing s with
  | nil => exact h
  | cons id rest ih =>
    obtain ⟨set, hset⟩ := hids id mem_cons_self
    refine ih (h.refillWorkerSet (fun task id stage hr => (hkept.tasks task id stage hr).1) id)
      (hkept.refillWorkerSet hset) fun id' hid' => ?_
    have hsame := workerSets_foldl_refill [id] s
    rw [foldl_cons, foldl_nil] at hsame
    rw [hsame]
    exact hids id' (mem_cons_of_mem _ hid')

section
variable (hr : s.refills[task]? = some (id, stage))
include hr

theorem InFlight.endRefill : (s.endRefill task id).InFlight := by
  intro id' hid'
  obtain ⟨hmem, hne⟩ := mem_filter.mp hid'
  obtain ⟨task', stage', hr'⟩ := h id' hmem
  refine ⟨task', stage', ?_⟩
  have htask : task' ≠ task := by
    rintro rfl
    rw [hr] at hr'
    cases hr'
    simp at hne
  rw [Supervision.endRefill, getElem?_erase_eq, if_neg htask]
  exact hr'

theorem InFlight.advanceRefill (stage' : SpawnStage) :
    { s with refills := s.refills.insert task (id, stage') }.InFlight := by
  intro id' hid'
  obtain ⟨task₁, stage₁, h₁⟩ := h id' hid'
  by_cases heq : task₁ = task
  · subst heq
    rw [hr] at h₁
    cases h₁
    exact ⟨task₁, stage', by rw [getElem?_insert_eq, if_pos rfl]⟩
  · refine ⟨task₁, stage₁, ?_⟩
    rw [getElem?_insert_eq, if_neg heq]
    exact h₁

theorem InFlight.continueRefill
    (hset : s.workerSets[id]? = some set) {acquired : Acquired} (hacq : acquired ≠ .metadataError) :
    (s.continueRefill task id acquired).InFlight := by
  unfold Supervision.continueRefill
  rw [hset]
  dsimp only
  split
  · exact h.endRefill hr
  cases acquired with
  | bindings | openError => exact h.advanceRefill hr _
  | metadataError => exact absurd rfl hacq

end

theorem InFlight.congr {s' : Supervision}
    (hflags : s'.refillingWorkerSets = s.refillingWorkerSets) (hrefills : s'.refills = s.refills) :
    s'.InFlight := by
  intro id hid
  rw [hrefills]
  exact h id (hflags ▸ hid)

theorem inFlight_enlist (supervisor : Option String) (pid : Nat) :
    (s.enlist supervisor pid).InFlight := by
  cases supervisor with
  | none => exact h
  | some supervisor => exact h.congr rfl rfl

theorem inFlight_hire (rt : ProcessRuntime) (supervisor : String) :
    (s.hire rt supervisor).InFlight := h.congr rfl rfl

theorem inFlight_continueWorkers (task : Nat)
    (c : WorkerCreation) (acquired : Acquired) : (s.continueWorkers task c acquired).InFlight := by
  unfold continueWorkers
  split
  · cases acquired <;> exact h.congr rfl rfl
  · exact h.congr rfl rfl

end

theorem undisturbed_resumeRefill {live : PidRef → Bool} {address : Nat}
    {acquired : Acquired} {constructed : Bool} {result : InitResult}
    (h : s.undisturbed (.resumeRefill live address task acquired constructed result) = true) :
    acquired ≠ .metadataError ∧ constructed = true := by
  cases acquired with
  | metadataError => cases h
  | bindings | openError => exact ⟨fun heq => (by cases heq), h⟩

theorem InFlight.step {s' : Supervision} (h : s.InFlight) (hkept : s.SetsKept none)
    (hop : s.undisturbed op = true) (hstep : s.OpStep op s') :
    s'.InFlight := by
  cases hstep with
  | same => exact h
  | ran | asked | dismissed | turned => exact h.congr rfl rfl
  | spawned sink hrt =>
    refine inFlight_enlist ?_ sink _
    exact h.congr rfl rfl
  | adopted hlive =>
    refine inFlight_enlist ?_ _ _
    rw [unlist_eq]
    exact h.congr rfl rfl
  | @reclaimed record _ _ _ rt hexec hlast hbodies =>
    have hremoved := (hkept.reclaimed hexec hbodies).withChildren
      (s.lifecycleSinks.erase record.pid.id) (s.unlist none record.pid.id).childTable
    rw [removeWorkerFromSets_eq, unlist_eq]
    refine InFlight.foldl_refillWorkerSet ?_ hremoved fun id' hid => ?_
    · exact h.congr rfl rfl
    · obtain ⟨set, hset, -⟩ := mem_lacking.mp hid
      exact ⟨_, getElem?_map_without_of_some hset _⟩
  | continued hc => exact inFlight_continueWorkers h _ _ _
  | hired hc hrt => exact inFlight_continueWorkers (inFlight_hire h _ _) _ _ _
  | refillEnded hr => exact h.endRefill hr
  | refillDropped hr => exact absurd (undisturbed_resumeRefill hop).2 (by simp)
  | refillContinued hr =>
    obtain ⟨set, hset, -⟩ := hkept.refilled _ _ _ hr
    exact h.continueRefill hr hset (undisturbed_resumeRefill hop).1
  | @refillHired _ _ _ _ _ rt task id set hr hset hrt =>
    have hhired : (s.hire rt set.supervisorName).workerSets[id]? = some set := hset
    have hflight : { s.hire rt set.supervisorName with
        workerSets := (s.hire rt set.supervisorName).workerSets.insert id
          { set with members := set.members ++ [s.rt.bodies.nextPid] } }.InFlight :=
      (inFlight_hire h rt set.supervisorName).congr rfl rfl
    have hins := getElem?_insert_eq (s.hire rt set.supervisorName).workerSets id id
      { set with members := set.members ++ [s.rt.bodies.nextPid] }
    rw [if_pos rfl] at hins
    rw [receiveRefill, hhired]
    exact hflight.continueRefill hr hins (undisturbed_resumeRefill hop).1

theorem SetChange.registers {s' : Supervision} {set' : WorkerSetState}
    (h : SetChange s s' op id set set')
    (hless : set'.members.length < set.members.length)
    (hlacks : set'.members.length < set'.target.toNat) : id ∈ s'.refillingWorkerSets := by
  rw [h.target] at hlacks
  cases h with
  | same | turned => exact absurd hless (Nat.lt_irrefl _)
  | joined pid =>
    rw [length_append, length_singleton] at hless
    omega
  | left hexec hlast hrefill => exact hrefill hless hlacks

theorem setsKept_start (specs : List RuntimeProcessSpec)
    (policy : String → Option RuntimeSupervisorPolicy) : (start specs policy).SetsKept none := by
  constructor <;> simp [start, ProcessRuntime.bodies, lookup, Bodies.Live]

theorem setsKept_run (h : s.SetsKept none) (ops : List SupervisionOp) :
    (s.run ops).SetsKept none := by
  induction ops generalizing s with
  | nil => exact h
  | cons op ops ih => exact ih (h.step (exec_step s op))

theorem inFlight_run (h : s.InFlight) (hkept : s.SetsKept none)
    (hops : s.undisturbedRun ops = true) : (s.run ops).InFlight := by
  induction ops generalizing s with
  | nil => exact h
  | cons op ops ih =>
    rw [undisturbedRun, Bool.and_eq_true] at hops
    exact ih (h.step hkept hops.1 (exec_step s op)) (hkept.step (exec_step s op)) hops.2

theorem undisturbedRun_append (s : Supervision) (before after : List SupervisionOp) :
    s.undisturbedRun (before ++ after) =
      (s.undisturbedRun before && (s.run before).undisturbedRun after) := by
  induction before generalizing s with
  | nil => rfl
  | cons op ops ih => rw [cons_append, undisturbedRun, undisturbedRun, ih, Bool.and_assoc, run_cons]

structure WellKept (s : Supervision) (id : Nat) (set : WorkerSetState) : Prop where
  nodup : set.members.Nodup
  live : ∀ pid ∈ set.members, pid ∈ s.rt.processes
  bounded : (set.members.length : Int) ≤ set.target
  index : set.nextIndex < set.members.length ∨ set.members = []
  single : ∀ (task task' : Nat) (stage stage' : SpawnStage), s.refills[task]? = some (id, stage) →
    s.refills[task']? = some (id, stage') → task = task'

theorem SetsKept.wellKept (h : s.SetsKept none)
    (hset : s.workerSets[id]? = some set) : s.WellKept id set := by
  have hkept := h.sets id set hset
  refine ⟨hkept.nodup, fun pid hp => ?_, ?_, ?_, fun task task' stage stage' hr hr' => ?_⟩
  · exact Std.TreeMap.isSome_getElem?_iff_mem.mp (hkept.live pid hp)
  · have htgt := hkept.target
    have hbdd := hkept.bounded
    omega
  · rcases hkept.valid with hlt | hzero
    · exact .inl hlt
    · rcases eq_nil_or_concat set.members with hnil | ⟨l, a, hconcat⟩
      · exact .inr hnil
      · rw [hzero, hconcat]
        exact .inl (by simp)
  · exact h.single task task' id stage stage' hr hr'

theorem found_accepting (h : s.SetsKept none) (hfound : s.found id op = some pid) :
    ∃ set : WorkerSetState, s.workerSets[id]? = some set ∧ pid ∈ set.members ∧ s.Accepting pid := by
  cases op with
  | next id' processName =>
    rcases nextWorkersPid_cases s id' processName with
      ⟨hnone, -⟩ | ⟨set, offset, pid', hset, hf, hturn⟩
    · rw [found_next_none hnone] at hfound
      cases hfound
    by_cases heq : id' = id
    · subst heq
      rw [found_next h hf (by rw [hturn])] at hfound
      cases hfound
      obtain ⟨entry, hbody, hacc, -⟩ := hf.accepting
      refine ⟨set, hset, ?_, entry, hbody, hacc⟩
      have hlt := Nat.mod_lt (set.nextIndex + offset) (Nat.zero_lt_of_lt hf.bound)
      rw [memberAt, getD_eq_getElem?_getD, getElem?_eq_getElem hlt]
      exact getElem_mem hlt
    · rw [found, if_neg heq] at hfound
      cases hfound
  | _ => cases hfound

/-- Along every run whose operations are undisturbed, in every state `s` of it
and for the operations `after` that state: a set that lacks a worker has a refill
in flight, and members that stay accepting are returned in turn, all of them
within as many calls as the set has places. -/
theorem worker_sets_round_robin (specs : List RuntimeProcessSpec)
    (policy : String → Option RuntimeSupervisorPolicy) (before after : List SupervisionOp)
    (h : (start specs policy).undisturbedRun (before ++ after) = true) :
    let s := (start specs policy).run before
    (∀ (id : Nat) (set : WorkerSetState), s.workerSets[id]? = some set → s.WellKept id set) ∧
      (∀ (op : SupervisionOp) (rest : List SupervisionOp), after = op :: rest →
        ∀ (id : Nat) (set set' : WorkerSetState), s.workerSets[id]? = some set →
          (s.step op).workerSets[id]? = some set' →
          set'.members.length < set.members.length →
          (set'.members.length : Int) < set'.target →
          ∃ (task : Nat) (stage : SpawnStage), (s.step op).refills[task]? = some (id, stage)) ∧
      (∀ (op : SupervisionOp) (id pid : Nat), s.found id op = some pid →
        ∃ set : WorkerSetState, s.workerSets[id]? = some set ∧ pid ∈ set.members ∧
          s.Accepting pid) ∧
      ∀ (id : Nat) (set : WorkerSetState), s.workerSets[id]? = some set →
        (∀ x y, s.StaysAccepting after id x → s.StaysAccepting after id y → x ≠ y →
          List.IsChain (· ≠ ·) ((returned id s after).filter fun pid => pid = x ∨ pid = y)) ∧
        (∀ x, s.StaysAccepting after id x → set.target ≤ (returned id s after).length →
          x ∈ returned id s after) := by
  intro s
  have hkept : s.SetsKept none := setsKept_run (setsKept_start specs policy) before
  rw [undisturbedRun_append, Bool.and_eq_true] at h
  have hflight : s.InFlight := inFlight_run (fun id hid => by cases hid)
    (setsKept_start specs policy) h.1
  refine ⟨fun id set hset => hkept.wellKept hset, ?_, fun op id pid => found_accepting hkept, ?_⟩
  · rintro op rest rfl id set set' hset hset' hless hlacks
    obtain ⟨set₁, hset₁, hchange⟩ := OpStep.setChange hkept (exec_step s op) hset
    rw [hset'] at hset₁
    cases hset₁
    have hop : s.undisturbed op = true := by
      have hafter := h.2
      rw [undisturbedRun, Bool.and_eq_true] at hafter
      exact hafter.1
    exact hflight.step hkept hop (exec_step s op) id (hchange.registers hless (by omega))
  · intro id set hset
    refine ⟨fun x y hx hy hne => ?_, fun x hx hlen => ?_⟩
    · have hstays : ∀ pid, pid = x ∨ pid = y → s.StaysAccepting after id pid := by
        rintro pid (rfl | rfl)
        · exact hx
        · exact hy
      obtain ⟨r, hturns⟩ := turns_run hkept h.2 hset rfl hstays
      exact hturns.chain (.inl rfl) (.inr rfl) hne
    · have hstays : ∀ pid, pid = x → s.StaysAccepting after id pid := by
        rintro pid rfl
        exact hx
      obtain ⟨r, hturns⟩ := turns_run hkept h.2 hset rfl hstays
      exact hturns.visits rfl (by omega)

def poolSpec : RuntimeProcessSpec :=
  { processId := 0, typeName := "Worker", kind := .genServer, inst := .worker, stateType := "Int"
    init := { funIdx := 0, policy := .eager, resultShape := .eagerState "Int"
              stateType := "Int", initRoute := none }
    handlers := [], dependencies := [], lifecycle := {}, supervision := {} }

def resumePool : SupervisionOp := .resumeWorkers (fun _ => true) 0 0 .bindings (.ok .unit)

def poolOps : List SupervisionOp :=
  [.workers "Pool" "Worker" ⟨3, 0, 3, 3⟩, resumePool, resumePool, resumePool, resumePool]

def pool : Supervision := (start [poolSpec] fun _ => none).run poolOps

def nextOfPool : SupervisionOp := .next 0 "Worker"

def stopWorker (pid exec : Nat) : List SupervisionOp :=
  let handle : PidRef := { address := 0, id := pid, processName := "Worker", kind := .worker }
  [.body (.start (fun _ => true) (.ok ()) none handle ⟨"", "", 0, 0, 0, 0⟩),
    .body (.state (some exec) handle), .body (.postprocess (some exec) handle),
    .body (.stop (some exec) handle .normal), .finish (fun _ => true) (.ok ()) exec]

/-- Worker `0` is reclaimed while the cursor stands behind it: worker `1`, whose
turn it is, is passed. -/
def shiftedRun : List SupervisionOp :=
  [nextOfPool, nextOfPool, nextOfPool, nextOfPool] ++ stopWorker 0 0 ++ [nextOfPool, nextOfPool]

theorem shifted_not_round_robin :
    pool.StaysAccepting shiftedRun 0 1 ∧ pool.StaysAccepting shiftedRun 0 2 ∧
      returned 0 pool shiftedRun = [0, 1, 2, 0, 2, 1] ∧
      ¬List.IsChain (· ≠ ·) ((returned 0 pool shiftedRun).filter fun pid => pid = 1 ∨ pid = 2) := by
  decide +kernel

/-- Worker `1` is reclaimed when it is its turn, and worker `3` takes a place. -/
def refilledRun : List SupervisionOp :=
  [nextOfPool] ++ stopWorker 1 0 ++
    [.resumeRefill (fun _ => true) 0 1 .bindings true (.ok .unit), nextOfPool,
      .resumeRefill (fun _ => true) 0 1 .bindings true (.ok .unit), nextOfPool, nextOfPool]

theorem refilled_round_robin :
    (start [poolSpec] fun _ => none).undisturbedRun (poolOps ++ refilledRun) = true ∧
      returned 0 pool refilledRun = [0, 2, 0, 2] ∧
      List.IsChain (· ≠ ·) ((returned 0 pool refilledRun).filter fun pid => pid = 0 ∨ pid = 2) ∧
      0 ∈ returned 0 pool refilledRun := by
  have hrun : (start [poolSpec] fun _ => none).undisturbedRun (poolOps ++ refilledRun) = true := by
    decide +kernel
  have hretd : returned 0 pool refilledRun = [0, 2, 0, 2] := by decide +kernel
  have htgt : pool.workerSets[0]?.map target = some 3 := by decide +kernel
  have h0 : pool.StaysAccepting refilledRun 0 0 := by decide +kernel
  have h2 : pool.StaysAccepting refilledRun 0 2 := by decide +kernel
  obtain ⟨-, -, -, hrounds⟩ :=
    worker_sets_round_robin [poolSpec] (fun _ => none) poolOps refilledRun hrun
  obtain ⟨set, hset, hthree⟩ := Option.map_eq_some_iff.mp htgt
  obtain ⟨hchain, hvisits⟩ := hrounds 0 set hset
  have hlen : set.target ≤ (returned 0 pool refilledRun).length := by
    rw [hthree, hretd]
    decide
  exact ⟨hrun, hretd, hchain 0 2 h0 h2 (by decide), hvisits 0 h0 hlen⟩

end Supervision

end Surtr.Eldr.Runtime
