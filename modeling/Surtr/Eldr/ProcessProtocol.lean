import Surtr.Eldr.ProcessExecution

/-!
# The protocol of process executions

What the log of a run says: one induction over the events for each fact, with
`Bodies.EventStep` for the step.
-/

namespace Surtr.Eldr.Runtime
open Surtr.Sindr Surtr.Lib ProcessRuntime BuiltinOutcome List
open ProcessEvent (apply finish start state store)

namespace ProcessEvent

variable {event : ProcessEvent} {outcome : Outcome}

def readsState (id : Nat) : ProcessEvent × Outcome → Bool
  | (.state (some id') _, outcome) => id' == id && outcome.isComplete
  | _ => false

def postprocesses (id : Nat) : ProcessEvent × Outcome → Bool
  | (.postprocess (some id') _, outcome) => id' == id && outcome.isComplete
  | _ => false

def storesState (id : Nat) : ProcessEvent × Outcome → Bool
  | (.store (some id') _ _, outcome) => id' == id && outcome.isComplete
  | _ => false

def stopRequest (pid : Nat) : ProcessEvent × Outcome → Option (Option ProcessStopReason)
  | (.stop _ target reason, outcome) =>
    if target.id = pid ∧ outcome.isComplete = true then some (some reason) else none
  | (.abort target, outcome) =>
    if target = pid ∧ outcome.isComplete = true then some none else none
  | _ => none

abbrev Log := List (ProcessEvent × Outcome)

def firstStop (pid : Nat) (log : Log) : Option (Option ProcessStopReason) :=
  log.findSome? (stopRequest pid)

theorem readsState_of_incomplete (id : Nat)
    (h : outcome.isComplete = false) : readsState id (event, outcome) = false := by
  unfold readsState
  split <;> simp_all

theorem storesState_of_incomplete (id : Nat)
    (h : outcome.isComplete = false) : storesState id (event, outcome) = false := by
  unfold storesState
  split <;> simp_all

theorem stopRequest_of_incomplete (pid : Nat)
    (h : outcome.isComplete = false) : stopRequest pid (event, outcome) = none := by
  unfold stopRequest
  split <;> simp_all

end ProcessEvent

open ProcessEvent

variable {log : Log} {B B' : Bodies} {id id' pid : Nat} {record : ProcessExecutionRecord}
  {entry : ProcessEvent × Outcome} {outcome : Outcome} {event : ProcessEvent} {rt : ProcessRuntime}

/-- What the log says of an execution with this record. -/
structure Recorded (log : Log) (id : Nat) (record : ProcessExecutionRecord) : Prop where
  reads : log.countP (readsState id) = if record.initialState.isSome then 0 else 1
  stores : log.countP (storesState id) = if record.stored then 1 else 0
  postprocessed : record.stage ≠ .handling → ∃ entry ∈ log, postprocesses id entry = true

structure Tracked (log : Log) (B : Bodies) (id : Nat) : Prop where
  reads_le : log.countP (readsState id) ≤ 1
  stores_le : log.countP (storesState id) ≤ 1
  fresh : B.nextExecution ≤ id → B.exec id = none ∧ log.countP (readsState id) = 0 ∧
    log.countP (storesState id) = 0
  recorded : ∀ {record}, B.exec id = some record → Recorded log id record

theorem Recorded.append {old new : ProcessExecutionRecord} (h : Recorded log id old)
    (hreads : (if old.initialState.isSome then 0 else 1) +
      (if readsState id entry then 1 else 0) = if new.initialState.isSome then 0 else 1)
    (hstores : (if old.stored then 1 else 0) + (if storesState id entry then 1 else 0) =
      if new.stored then 1 else 0)
    (hpost : new.stage ≠ .handling → old.stage ≠ .handling ∨ postprocesses id entry = true) :
    Recorded (log ++ [entry]) id new := by
  refine ⟨?_, ?_, fun hstage => ?_⟩
  · rw [countP_append, countP_singleton, h.reads, hreads]
  · rw [countP_append, countP_singleton, h.stores, hstores]
  · rcases hpost hstage with hold | hpost
    · obtain ⟨x, hx, hp⟩ := h.postprocessed hold
      exact ⟨x, mem_append_left _ hx, hp⟩
    · exact ⟨entry, by simp, hpost⟩

theorem Tracked.lt (h : Tracked log B id) (hexec : B.exec id = some record) :
    id < B.nextExecution :=
  Nat.lt_of_not_le fun hle => nomatch (h.fresh hle).1.symm.trans hexec

theorem Tracked.same (h : Tracked log B id) (hexec : B'.exec id = B.exec id ∨ B'.exec id = none)
    (hnext : B.nextExecution ≤ B'.nextExecution) (hread : readsState id entry = false)
    (hstore : storesState id entry = false) : Tracked (log ++ [entry]) B' id := by
  have hreads : (log ++ [entry]).countP (readsState id) = log.countP (readsState id) := by
    simp [hread]
  have hstores : (log ++ [entry]).countP (storesState id) = log.countP (storesState id) := by
    simp [hstore]
  refine ⟨hreads ▸ h.reads_le, hstores ▸ h.stores_le, fun hle => ?_, fun {record} hrec => ?_⟩
  · obtain ⟨hnone, hcounts⟩ := h.fresh (hnext.trans hle)
    rw [hreads, hstores]
    exact ⟨hexec.elim (·.trans hnone) fun h => h, hcounts⟩
  · have hold : B.exec id = some record :=
      hexec.elim (·.symm.trans hrec) fun hnone => nomatch hnone.symm.trans hrec
    refine (h.recorded hold).append ?_ ?_ .inl
    · rw [hread]
      rfl
    · rw [hstore]
      rfl

theorem Recorded.tracked (h : Recorded log id record) (hexec : B.exec id = some record)
    (hlt : id < B.nextExecution) : Tracked log B id := by
  refine ⟨?_, ?_, fun hle => absurd hlt (Nat.not_lt.mpr hle), fun hrec => ?_⟩
  · rw [h.reads]
    split <;> omega
  · rw [h.stores]
    split <;> omega
  · cases hexec.symm.trans hrec
    exact h

theorem exec_setExec_ne (B : Bodies) (record : Option ProcessExecutionRecord)
    (h : id ≠ id') : (B.setExec id' record).exec id = B.exec id := by
  simp only [Bodies.setExec, Function.update_apply, if_neg h]

theorem exec_setExec_self (B : Bodies) (id : Nat) (record : Option ProcessExecutionRecord) :
    (B.setExec id record).exec id = record := by
  simp only [Bodies.setExec, Function.update_self]

theorem Tracked.update {new : ProcessExecutionRecord} (h : Tracked log B id)
    (hexec : B.exec id' = some record) (hexec' : B'.exec = (B.setExec id' (some new)).exec)
    (hnext : B'.nextExecution = B.nextExecution)
    (hself : Recorded log id' record → Recorded (log ++ [entry]) id' new)
    (hread : id ≠ id' → readsState id entry = false)
    (hstore : id ≠ id' → storesState id entry = false) : Tracked (log ++ [entry]) B' id := by
  by_cases heq : id = id'
  · subst heq
    exact (hself (h.recorded hexec)).tracked (by rw [hexec', exec_setExec_self])
      (hnext ▸ h.lt hexec)
  · exact h.same (.inl (by rw [hexec', exec_setExec_ne _ _ heq])) hnext.ge (hread heq) (hstore heq)

theorem Tracked.finish (h : Tracked log B id) (hexec' : B'.exec = (B.setExec id' none).exec)
    (hnext : B.nextExecution ≤ B'.nextExecution) (hread : readsState id entry = false)
    (hstore : storesState id entry = false) : Tracked (log ++ [entry]) B' id := by
  refine h.same ?_ hnext hread hstore
  rw [hexec']
  by_cases heq : id = id'
  · exact .inr (heq ▸ exec_setExec_self _ _ _)
  · exact .inl (exec_setExec_ne _ _ heq)

theorem Tracked.step (hstep : B.EventStep event outcome B') (h : Tracked log B id) :
    Tracked (log ++ [(event, outcome)]) B' id := by
  cases hstep with
  | refused hout _ =>
    exact h.same (.inl rfl) (Nat.le_refl _) (readsState_of_incomplete id hout)
      (storesState_of_incomplete id hout)
  | spawned | stopped | stoppedAgain | aborted => exact h.same (.inl rfl) (Nat.le_refl _) rfl rfl
  | unprepared => exact h.same (.inl rfl) (Nat.le_succ _) rfl rfl
  | accepted hbody hacc hpid hstage hstored hstate =>
    by_cases heq : id = B.nextExecution
    · subst heq
      -- the number is new, so nothing in the log is about it
      obtain ⟨-, hreads, hstores⟩ := h.fresh (Nat.le_refl _)
      refine Recorded.tracked ⟨?_, ?_, fun hne => absurd hstage hne⟩ (exec_setExec_self _ _ _)
        (Nat.lt_succ_self _)
      · simp [hreads, hstate, readsState]
      · simp [hstores, hstored, storesState]
    · exact h.same (.inl (exec_setExec_ne _ _ heq)) (Nat.le_succ _) rfl rfl
  | read hexec hpid hstage hstate =>
    refine h.update hexec rfl rfl (fun hrec => hrec.append ?_ rfl ?_) (fun hne => ?_) fun _ => rfl
    · simp [hstate, readsState, Outcome.isComplete, isComplete]
    · exact fun hne => absurd hstage hne
    · simp [readsState, hne.symm]
  | postprocessed hexec hpid hstage hstate =>
    refine h.update hexec rfl rfl (fun hrec => hrec.append rfl rfl fun _ => ?_) (fun _ => rfl)
      fun _ => rfl
    simp [postprocesses, Outcome.isComplete, isComplete]
  | stored hexec hpid hstage hstored hbody =>
    refine h.update hexec rfl rfl (fun hrec => hrec.append rfl ?_ .inl) (fun _ => rfl) fun hne => ?_
    · simp [hstored, storesState, Outcome.isComplete, isComplete]
    · simp [storesState, hne.symm]
  | finished | reclaimed => exact h.finish rfl (Nat.le_refl _) rfl rfl

theorem postprocessed_of_stores (hstep : B.EventStep event outcome B') (h : Tracked log B id)
    (hstore : storesState id (event, outcome) = true) :
    ∃ entry ∈ log, postprocesses id entry = true := by
  cases hstep with
  | refused hout _ =>
    rw [storesState_of_incomplete id hout] at hstore
    exact Bool.noConfusion hstore
  | stored hexec hpid hstage hstored hbody =>
    simp only [storesState, Bool.and_eq_true, beq_iff_eq] at hstore
    obtain ⟨rfl, -⟩ := hstore
    exact (h.recorded hexec).postprocessed (by rw [hstage]; decide)
  | _ => exact Bool.noConfusion hstore

structure StopTracked (log : Log) (B : Bodies) (pid : Nat) : Prop where
  fresh : B.nextPid ≤ pid → B.body pid = none ∧ firstStop pid log = none
  mailbox : ∀ {entry}, B.body pid = some entry → entry.mailbox = []
  stopping : ∀ {entry}, B.body pid = some entry →
    (entry.acceptance = .stopping ↔ (firstStop pid log).isSome = true) ∧
      entry.stopReason = (firstStop pid log).join

theorem StopTracked.lt {entry : ProcessInstance} (h : StopTracked log B pid)
    (hbody : B.body pid = some entry) : pid < B.nextPid :=
  Nat.lt_of_not_le fun hle => nomatch (h.fresh hle).1.symm.trans hbody

theorem firstStop_append (pid : Nat) (log : Log) (entry : ProcessEvent × Outcome) :
    firstStop pid (log ++ [entry]) = (firstStop pid log).or (stopRequest pid entry) := by
  simp only [firstStop, findSome?_append, findSome?_cons, findSome?_nil]
  cases stopRequest pid entry <;> rfl

theorem StopTracked.same (h : StopTracked log B pid) (hnext : B.nextPid ≤ B'.nextPid)
    (hreq : stopRequest pid entry = none) (hbody : ∀ {new}, B'.body pid = some new → ∃ old,
      B.body pid = some old ∧ new.mailbox = old.mailbox ∧ new.acceptance = old.acceptance ∧
        new.stopReason = old.stopReason) : StopTracked (log ++ [entry]) B' pid := by
  have hfst : firstStop pid (log ++ [entry]) = firstStop pid log := by
    rw [firstStop_append, hreq, Option.or_none]
  refine ⟨fun hle => ⟨?_, hfst.trans (h.fresh (hnext.trans hle)).2⟩, fun hnew => ?_, fun hnew => ?_⟩
  · refine Option.eq_none_iff_forall_ne_some.mpr fun new hnew => ?_
    obtain ⟨old, hold, -⟩ := hbody hnew
    exact absurd (h.lt hold) (Nat.not_lt.mpr (hnext.trans hle))
  all_goals obtain ⟨old, hold, hmail, hacc, hreason⟩ := hbody hnew
  · rw [hmail, h.mailbox hold]
  · rw [hacc, hreason, hfst]
    exact h.stopping hold

theorem StopTracked.other (h : StopTracked log B pid) (hnext : B.nextPid ≤ B'.nextPid)
    (hreq : stopRequest pid entry = none) (hbody : B'.body pid = B.body pid) :
    StopTracked (log ++ [entry]) B' pid :=
  h.same hnext hreq fun {new} hnew => ⟨new, hbody ▸ hnew, rfl, rfl, rfl⟩

theorem stopTracked_of_body {entry : ProcessInstance} (hlt : pid < B.nextPid)
    (hbody : B.body pid = some entry) (hmail : entry.mailbox = [])
    (hstopping : entry.acceptance = .stopping ↔ (firstStop pid log).isSome = true)
    (hreason : entry.stopReason = (firstStop pid log).join) : StopTracked log B pid := by
  refine ⟨fun hle => absurd hlt (Nat.not_lt.mpr hle), fun hnew => ?_, fun hnew => ?_⟩
  all_goals cases hbody.symm.trans hnew
  · exact hmail
  · exact ⟨hstopping, hreason⟩

theorem body_setBody_ne (B : Bodies) {pid' : Nat} (entry : Option ProcessInstance)
    (h : pid ≠ pid') : (B.setBody pid' entry).body pid = B.body pid := by
  simp only [Bodies.setBody, Function.update_apply, if_neg h]

theorem body_setBody_self (B : Bodies) (pid : Nat) (entry : Option ProcessInstance) :
    (B.setBody pid entry).body pid = entry := by
  simp only [Bodies.setBody, Function.update_self]

theorem StopTracked.step {log : Log} {B B' : Bodies} {event : ProcessEvent} {outcome : Outcome}
    (hstep : B.EventStep event outcome B') {pid : Nat} (h : StopTracked log B pid) :
    StopTracked (log ++ [(event, outcome)]) B' pid := by
  cases hstep with
  | refused hout _ => exact h.other (Nat.le_refl _) (stopRequest_of_incomplete pid hout) rfl
  | spawned hid hacc hreason hmailbox =>
    by_cases heq : pid = B.nextPid
    · subst heq
      have hfst := (h.fresh (Nat.le_refl _)).2
      refine stopTracked_of_body (Nat.lt_succ_self _) (body_setBody_self _ _ _) hmailbox ?_ ?_
      · simp [firstStop_append, hfst, hacc, stopRequest]
      · rw [firstStop_append, hfst, hreason]
        rfl
    · exact h.other (Nat.le_succ _) rfl (body_setBody_ne _ _ heq)
  | unprepared | accepted | read | postprocessed | finished =>
    exact h.other (Nat.le_refl _) rfl rfl
  | @stored record target entry nextState id hexec hpid hstage hstored hbody =>
    refine h.same (Nat.le_refl _) rfl fun {new} hnew => ?_
    simp only [Bodies.setBody, Function.update_apply] at hnew
    split at hnew
    case isTrue heq =>
      cases hnew
      exact ⟨entry, heq ▸ hbody, rfl, rfl, rfl⟩
    case isFalse => exact ⟨new, hnew, rfl, rfl, rfl⟩
  | @stopped record target entry reason id out hexec hpid hstage hbody hacc hout =>
    by_cases heq : pid = target.id
    · subst heq
      have hmail := h.mailbox hbody
      have hfst : firstStop target.id log = none := by
        rw [← Option.not_isSome_iff_eq_none, ← (h.stopping hbody).1, hacc]
        decide
      have hcompl : outcome.isComplete = true := by rw [hout, hmail]; rfl
      have hreq : stopRequest target.id (.stop (some id) target reason, outcome) =
          some (some reason) := by simp [stopRequest, hcompl]
      refine stopTracked_of_body (h.lt hbody) (body_setBody_self _ _ _) hmail ?_ ?_
      all_goals simp [firstStop_append, hfst, hreq]
    · refine h.other (Nat.le_refl _) ?_ (body_setBody_ne _ _ heq)
      exact if_neg fun hreq => heq hreq.1.symm
  | @stoppedAgain record target entry reason id hexec hpid hstage hbody hacc =>
    by_cases heq : pid = target.id
    · subst heq
      obtain ⟨hstopping, hreason⟩ := h.stopping hbody
      obtain ⟨first, hfst⟩ := Option.isSome_iff_exists.mp (hstopping.mp hacc)
      rw [hfst] at hreason
      refine stopTracked_of_body (h.lt hbody) hbody (h.mailbox hbody) ?_ ?_
      all_goals simp [firstStop_append, hfst, hacc, hreason]
    · refine h.other (Nat.le_refl _) ?_ rfl
      exact if_neg fun hreq => heq hreq.1.symm
  | @aborted target entry hbody =>
    by_cases heq : pid = target
    · subst heq
      have hmail := h.mailbox hbody
      have hreason := (h.stopping hbody).2
      have hreq : stopRequest pid (.abort pid, .ok (.complete .unit)) = some none := by
        simp [stopRequest, Outcome.isComplete, isComplete]
      refine stopTracked_of_body (h.lt hbody) (body_setBody_self _ _ _) hmail ?_ ?_
      · simp [firstStop_append, hreq]
      · rw [firstStop_append, hreq]
        cases hfst : firstStop pid log with
        | none | some => exact hreason.trans (by rw [hfst]; rfl)
    · refine h.other (Nat.le_refl _) ?_ (body_setBody_ne _ _ heq)
      exact if_neg fun hreq => heq hreq.1.symm
  | reclaimed hexec hlast =>
    refine h.same (Nat.le_refl _) rfl fun {new} hnew => ?_
    simp only [Bodies.setBody, Function.update_apply] at hnew
    split at hnew
    · cases hnew
    · exact ⟨new, hnew, rfl, rfl, rfl⟩

variable (specs : List RuntimeProcessSpec) (events : List ProcessEvent)

theorem run_append_one (event : ProcessEvent) : run specs (events ++ [event]) =
      ((run specs events).1 ++ [(event, (event.apply (run specs events).2).1)],
        (event.apply (run specs events).2).2) := by
  simp only [run, foldl_append, foldl_cons, foldl_nil]

theorem tracked_run (id : Nat) : Tracked (run specs events).1 (run specs events).2.bodies id := by
  induction events using reverseRecOn with
  | nil =>
    exact ⟨Nat.zero_le _, Nat.zero_le _, fun _ => ⟨rfl, rfl, rfl⟩, nofun⟩
  | append_singleton events event ih =>
    rw [run_append_one]
    exact ih.step (step_event _ event)

theorem stopTracked_run
    (pid : Nat) : StopTracked (run specs events).1 (run specs events).2.bodies pid := by
  induction events using reverseRecOn with
  | nil => exact ⟨fun _ => ⟨rfl, rfl⟩, nofun, nofun⟩
  | append_singleton events event ih =>
    rw [run_append_one]
    exact ih.step (step_event _ event)

theorem stores_after_postprocess {before after : Log}
    (hlog : (run specs events).1 = before ++ entry :: after)
    (hstore : storesState id entry = true) : ∃ x ∈ before, postprocesses id x = true := by
  induction events using reverseRecOn generalizing after with
  | nil => exact absurd hlog (by simp [run])
  | append_singleton events event ih =>
    rw [run_append_one] at hlog
    cases after using reverseRecOn with
    | nil =>
      obtain ⟨hbefore, hent⟩ := append_inj' hlog rfl
      rw [← hbefore]
      rw [← List.cons.inj hent |>.1] at hstore
      exact postprocessed_of_stores (step_event _ event) (tracked_run specs events id)
        hstore
    | append_singleton after last =>
      have hsplit : (run specs events).1 ++ [(event, (event.apply (run specs events).2).1)] =
          (before ++ entry :: after) ++ [last] := by
        rw [append_assoc, cons_append]
        exact hlog
      exact ih (append_inj' hsplit rfl).1

theorem body_reclaimed_iff (hstep : B.EventStep event outcome B') {entry : ProcessInstance}
    (hbody : B.body pid = some entry) :
    B'.body pid = none ↔ ∃ live cleanup id record, event = .finish live cleanup id ∧
      B.exec id = some record ∧ record.pid.id = pid ∧ B.Last id record := by
  -- every step but the last one leaves a body where it was one
  have hset : ∀ B' : Bodies, ∀ target (new : ProcessInstance),
      (B'.body pid ≠ none) → (B'.setBody target (some new)).body pid ≠ none := by
    intro B' target new hne
    simp only [Bodies.setBody, Function.update_apply]
    split
    · simp
    · exact hne
  have hsome : B.body pid ≠ none := by rw [hbody]; simp
  cases hstep with
  | refused _ hidle =>
    refine iff_of_false hsome ?_
    rintro ⟨live, cleanup, id, record, hevent, hexec, -⟩
    cases hexec.symm.trans (hidle live cleanup id hevent)
  | spawned | stored | stopped | aborted =>
    refine iff_of_false (hset _ _ _ hsome) ?_
    rintro ⟨_, _, _, _, ⟨⟩, -⟩
  | unprepared | accepted | read | postprocessed | stoppedAgain =>
    refine iff_of_false hsome ?_
    rintro ⟨_, _, _, _, ⟨⟩, -⟩
  | finished hexec hmore =>
    refine iff_of_false hsome ?_
    rintro ⟨_, _, _, _, ⟨⟩, hexec', -, hlast⟩
    cases hexec'.symm.trans hexec
    exact hmore hlast
  | @reclaimed record live cleanup id hexec hlast =>
    by_cases heq : pid = record.pid.id
    · refine ⟨fun _ => ⟨live, cleanup, id, record, rfl, hexec, heq.symm, hlast⟩, fun _ => ?_⟩
      rw [heq, body_setBody_self]
    refine iff_of_false (by rw [body_setBody_ne _ _ heq]; exact hsome) ?_
    rintro ⟨_, _, _, _, ⟨⟩, hexec', hpid, -⟩
    cases hexec'.symm.trans hexec
    exact heq hpid.symm

theorem body_none_step (hstep : B.EventStep event outcome B') (hbody : B.body pid = none)
    (hnext : pid < B.nextPid) : B'.body pid = none ∧ pid < B'.nextPid := by
  -- an update goes to a body that exists
  have hset : ∀ B' : Bodies, ∀ target (old : ProcessInstance) (new : Option ProcessInstance),
      B.body target = some old → B'.body pid = none → (B'.setBody target new).body pid = none := by
    intro B' target old new hold hnone
    have hne : pid ≠ target := by
      rintro rfl
      rw [hbody] at hold
      exact absurd hold (by simp)
    rw [body_setBody_ne _ _ hne, hnone]
  cases hstep with
  | refused | unprepared | accepted | read | postprocessed | stoppedAgain | finished =>
    exact ⟨hbody, hnext⟩
  | spawned =>
    exact ⟨(body_setBody_ne _ _ (Nat.ne_of_lt hnext)).trans hbody, Nat.lt_succ_of_lt hnext⟩
  | stored _ _ _ _ hold | stopped _ _ _ hold _ _ | aborted hold =>
    exact ⟨hset _ _ _ _ hold hbody, hnext⟩
  | reclaimed _ hlast =>
    obtain ⟨⟨old, hold, _⟩, _⟩ := hlast
    exact ⟨hset _ _ _ _ hold hbody, hnext⟩

theorem body_none_run {events : List ProcessEvent}
    (hbody : (run specs events).2.processes[pid]? = none)
    (hnext : pid < (run specs events).2.nextPid) (more : List ProcessEvent) :
    (run specs (events ++ more)).2.processes[pid]? = none := by
  have hgo : (run specs (events ++ more)).2.bodies.body pid = none ∧
      pid < (run specs (events ++ more)).2.bodies.nextPid := by
    induction more using reverseRecOn with
    | nil =>
      rw [append_nil]
      exact ⟨hbody, hnext⟩
    | append_singleton more event ih =>
      rw [← append_assoc, run_append_one]
      exact body_none_step (step_event _ event) ih.1 ih.2
  exact hgo.1

def Outside (rt : ProcessRuntime) (current : Option Nat) (pid : PidRef) : Prop :=
  ∀ id record, current = some id → rt.executions[id]? = some record → record.pid ≠ pid

theorem processState_outside {current : Option Nat} {pid : PidRef} (h : Outside rt current pid) :
    (rt.processState current pid).1.isComplete = false ∧ (rt.processState current pid).2 = rt := by
  fun_cases processState rt current pid with
  | case1 _ outcome hcheck => exact ⟨checkBody_error hcheck, rfl⟩
  | case6 _ _ id record hexec hmatch => exact absurd (.inl (h id record rfl hexec)) hmatch
  | _ => exact ⟨rfl, rfl⟩

theorem processStore_outside {current : Option Nat} {pid : PidRef}
    (h : Outside rt current pid) (nextState : Value) :
    (rt.processStore current pid nextState).1.isComplete = false ∧
      (rt.processStore current pid nextState).2 = rt := by
  fun_cases processStore rt current pid nextState with
  | case1 _ outcome hcheck => exact ⟨checkBody_error hcheck, rfl⟩
  | case5 _ _ id record hexec hmatch => exact absurd (.inl (h id record rfl hexec)) hmatch
  | _ => exact ⟨rfl, rfl⟩

theorem start_stopping {pid : PidRef} (h : rt.isStopping pid.id = true)
    (live : PidRef → Bool) (prepared : Except RuntimeFault Unit) (current : Option Nat)
    (origin : Location) : (rt.startProcessExecutionAt live prepared current pid origin).2 = rt := by
  obtain ⟨entry, hbody, hstopping⟩ := (isStopping_iff rt pid.id).mp h
  have hget : rt.processes[pid.id]? = some entry := hbody
  have hacc : (rt.processes[pid.id]?.map ProcessInstance.acceptance) = some .stopping := by
    rw [hget, Option.map_some, hstopping]
  simp only [startProcessExecutionAt, hacc, or_true, if_true]
  repeat' split
  all_goals rfl

theorem finish_live (hexec : rt.executions[id]? = some record) (live : PidRef → Bool)
    (cleanup : Except RuntimeFault Unit) :
    (unitOutcome (rt.finishProcessExecution live cleanup id).1 = .ok (.complete .unit) ∨
      unitOutcome (rt.finishProcessExecution live cleanup id).1 = unitOutcome cleanup) ∧
    (rt.finishProcessExecution live cleanup id).2.executions[id]? = none := by
  have hdone : ∀ B' : Bodies, ∀ outcome, rt.bodies.EventStep (.finish live cleanup id) outcome B' →
      (outcome = .ok (.complete .unit) ∨ outcome = unitOutcome cleanup) ∧ B'.exec id = none := by
    intro B' outcome hstep
    cases hstep with
    | refused _ hidle =>
      have hnone : rt.executions[id]? = none := hidle live cleanup id rfl
      cases hexec.symm.trans hnone
    | finished _ _ => exact ⟨.inl rfl, exec_setExec_self _ _ _⟩
    | reclaimed _ _ => exact ⟨.inr rfl, exec_setExec_self _ _ _⟩
  exact hdone _ _ (step_finishProcessExecution rt live cleanup id)

/-- For every run: an execution reads and stores at most once and stores only
after it has postprocessed; a stopping body accepts no execution, lets the
accepted ones finish and goes with the last of them, for good, with the reason of
the first request to stop. -/
theorem process_execution_protocol : (∀ id, (run specs events).1.countP (readsState id) ≤ 1 ∧
      (run specs events).1.countP (storesState id) ≤ 1) ∧
    (∀ id before entry after, (run specs events).1 = before ++ entry :: after →
      storesState id entry = true → ∃ x ∈ before, postprocesses id x = true) ∧
    (∀ current pid, Outside (run specs events).2 current pid →
      ((state current pid).apply (run specs events).2).1.isComplete = false ∧
      ((state current pid).apply (run specs events).2).2 = (run specs events).2 ∧
      ∀ nextState, ((store current pid nextState).apply (run specs events).2).1.isComplete = false ∧
        ((store current pid nextState).apply (run specs events).2).2 = (run specs events).2) ∧
    (∀ live prepared current pid origin, (run specs events).2.isStopping pid.id = true →
      ((start live prepared current pid origin).apply (run specs events).2).2 =
        (run specs events).2) ∧
    (∀ live cleanup id record, (run specs events).2.executions[id]? = some record →
      (((finish live cleanup id).apply (run specs events).2).1 = .ok (.complete .unit) ∨
        ((finish live cleanup id).apply (run specs events).2).1 = unitOutcome cleanup) ∧
      ((finish live cleanup id).apply (run specs events).2).2.executions[id]? = none) ∧
    (∀ event pid entry, (run specs events).2.processes[pid]? = some entry →
      ((apply (run specs events).2 event).2.processes[pid]? = none ↔
        ∃ live cleanup id record, event = .finish live cleanup id ∧
          (run specs events).2.executions[id]? = some record ∧ record.pid.id = pid ∧
          (run specs events).2.bodies.Last id record)) ∧
    (∀ pid more, (run specs events).2.processes[pid]? = none → pid < (run specs events).2.nextPid →
      (run specs (events ++ more)).2.processes[pid]? = none) ∧
    (∀ pid entry, (run specs events).2.processes[pid]? = some entry →
      (entry.acceptance = .stopping ↔ (firstStop pid (run specs events).1).isSome = true) ∧
      entry.stopReason = (firstStop pid (run specs events).1).join) := by
  refine ⟨?_, ?_, ?_, ?_, ?_, ?_, ?_, ?_⟩
  · exact fun id =>
      ⟨(tracked_run specs events id).reads_le, (tracked_run specs events id).stores_le⟩
  · exact fun id before entry after hlog hstore =>
      stores_after_postprocess specs events hlog hstore
  · intro current pid houtside
    have hread := processState_outside houtside
    exact ⟨hread.1, hread.2, fun nextState => processStore_outside houtside nextState⟩
  · exact fun live prepared current pid origin hstopping =>
      start_stopping hstopping live prepared current origin
  · exact fun live cleanup id record hexec => finish_live hexec live cleanup
  · exact fun event pid entry hbody =>
      body_reclaimed_iff (step_event _ event) hbody
  · exact fun pid more hbody hnext => body_none_run specs hbody hnext more
  · exact fun pid entry hbody => (stopTracked_run specs events pid).stopping hbody

def Alive (B : Bodies) : Prop :=
  ∀ id record, B.exec id = some record → B.body record.pid.id ≠ none

theorem Alive.step (hstep : B.EventStep event outcome B') (h : Alive B) : Alive B' := by
  intro id record hexec
  cases hstep with
  | refused | unprepared | stoppedAgain => exact h id record hexec
  | spawned | stopped | aborted | accepted | read | postprocessed | stored | finished =>
    simp only [Bodies.setBody, Bodies.setExec, Function.update_apply] at hexec ⊢
    grind [Alive]
  | reclaimed _ hlast =>
    -- no other execution is on the body that goes
    have hother := hlast.2 id record
    simp only [Bodies.setBody, Bodies.setExec, Function.update_apply] at hexec ⊢
    grind [Alive]

def storedState (pid : Nat) : ProcessEvent × Outcome → Option Value
  | (.store _ target nextState, outcome) =>
    if target.id = pid ∧ outcome.isComplete = true then some nextState else none
  | _ => none

def lastStore (pid : Nat) (log : Log) : Option Value :=
  log.reverse.findSome? (storedState pid)

theorem lastStore_append (pid : Nat) (log : Log) (entry : ProcessEvent × Outcome) :
    lastStore pid (log ++ [entry]) = (storedState pid entry).or (lastStore pid log) := by
  rw [lastStore, reverse_append, reverse_singleton, singleton_append, findSome?_cons]
  cases storedState pid entry <;> rfl

theorem stateValue_step (hstep : B.EventStep event outcome B') (hlt : pid < B.nextPid)
    {old new : ProcessInstance} (hold : B.body pid = some old) (hnew : B'.body pid = some new) :
    new.stateValue = (storedState pid (event, outcome)).or old.stateValue := by
  cases hstep with
  | refused hout =>
    cases hold.symm.trans hnew
    have hnone : storedState pid (event, outcome) = none := by
      unfold storedState
      split <;> grind
    rw [hnone, Option.none_or]
  | unprepared | accepted | read | postprocessed | stoppedAgain | finished =>
    cases hold.symm.trans hnew
    rfl
  | spawned | stopped | aborted | reclaimed =>
    change new.stateValue = old.stateValue
    simp only [Bodies.setBody, Bodies.setExec, Function.update_apply] at hnew
    grind
  | stored =>
    simp only [Bodies.setBody, Bodies.setExec, Function.update_apply] at hnew
    grind [storedState, Outcome.isComplete, isComplete]

theorem nextPid_step (hstep : B.EventStep event outcome B') : B.nextPid ≤ B'.nextPid := by
  cases hstep with
  | spawned => exact Nat.le_succ _
  | _ => exact Nat.le_refl _

/-- After every run an accepted execution that has not finished has its body. From
then on the number of a body is not given out again, and its state is the value
of the last store that completed on it, or the one it had. -/
theorem executions_keep_body_and_last_store : (∀ (id : Nat) (record : ProcessExecutionRecord),
      (run specs events).2.executions[id]? = some record →
      (run specs events).2.processes[record.pid.id]? ≠ none) ∧
    ∀ more, ∃ log, (run specs (events ++ more)).1 = (run specs events).1 ++ log ∧
      ∀ pid entry, (run specs events).2.processes[pid]? = some entry →
        pid < (run specs (events ++ more)).2.nextPid ∧
        ∀ entry', (run specs (events ++ more)).2.processes[pid]? = some entry' →
          entry'.stateValue = (lastStore pid log).or entry.stateValue := by
  refine ⟨?_, fun more => ?_⟩
  · show Alive (run specs events).2.bodies
    induction events using reverseRecOn with
    | nil => exact fun _ _ hexec => nomatch hexec
    | append_singleton events event ih =>
      rw [run_append_one]
      exact ih.step (step_event _ event)
  induction more using reverseRecOn with
  | nil =>
    refine ⟨[], by simp, fun pid entry hbody => ?_⟩
    rw [append_nil]
    refine ⟨(stopTracked_run specs events pid).lt hbody, fun entry' hbody' => ?_⟩
    cases hbody.symm.trans hbody'
    rfl
  | append_singleton more event ih =>
    obtain ⟨log, hlog, hstate⟩ := ih
    have hstep := step_event (run specs (events ++ more)).2 event
    rw [← append_assoc, run_append_one, hlog]
    refine ⟨_, append_assoc _ _ _, fun pid entry hbody => ?_⟩
    obtain ⟨hlt, hstate⟩ := hstate pid entry hbody
    refine ⟨Nat.lt_of_lt_of_le hlt (nextPid_step hstep), fun entry' hbody' => ?_⟩
    cases hmid : (run specs (events ++ more)).2.processes[pid]? with
    | none => cases hbody'.symm.trans (body_none_step hstep hmid hlt).1
    | some old =>
      rw [lastStore_append, stateValue_step hstep hlt hmid hbody', hstate old hmid,
        Option.or_assoc]

end Surtr.Eldr.Runtime
