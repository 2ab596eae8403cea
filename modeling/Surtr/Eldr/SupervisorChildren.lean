import Surtr.Eldr.SupervisionStep

/-!
# The child lists of supervisors

Lists and sinks are changed apart, so `Listed` is stated for any sinks.
-/

namespace Surtr.Eldr.Runtime
open Surtr.Sindr Surtr.Lib Function

namespace Supervision

variable {s : Supervision} {pid : Nat} {s' : Supervision} {rt : ProcessRuntime}

def Listed (s : Supervision) (sink : Nat → Option String) : Prop :=
  ∀ name pid, (s.children name).count pid = if sink pid = some name then 1 else 0

def sink (s : Supervision) (pid : Nat) : Option String := s.lifecycleSinks.lookup pid

theorem children_addSupervisorChild (s : Supervision) (supervisor : String) (pid : Nat)
    (name : String) : (s.addSupervisorChild supervisor pid).children name =
      if name = supervisor then
        (if pid ∈ s.children supervisor then s.children supervisor
          else s.children supervisor ++ [pid])
      else s.children name := by
  unfold addSupervisorChild
  simp only [children, Assoc.lookup_insert_eq]
  by_cases h : name = supervisor
  · rw [if_pos h, if_pos h]
    rfl
  · rw [if_neg h, if_neg h]

theorem children_removeSupervisorChild (s : Supervision) (supervisor : String) (pid : Nat)
    (name : String) : (s.removeSupervisorChild supervisor pid).children name =
      if name = supervisor then (s.children supervisor).filter (· ≠ pid) else s.children name := by
  unfold removeSupervisorChild
  cases hlist : s.childTable.lookup supervisor with
  | none =>
    by_cases h : name = supervisor
    · subst h
      simp [children, hlist]
    · simp [children, h]
  | some list =>
    simp only [children, Assoc.lookup_insert_eq, hlist]
    by_cases h : name = supervisor
    · rw [if_pos h, if_pos h]
      rfl
    · rw [if_neg h, if_neg h]

theorem Listed.add {sink : Nat → Option String} (h : s.Listed sink)
    {supervisor : String} (hsink : sink pid = none ∨ sink pid = some supervisor) :
    (s.addSupervisorChild supervisor pid).Listed (update sink pid (some supervisor)) := by
  intro name pid'
  rw [children_addSupervisorChild]
  by_cases hp : pid' = pid
  · subst hp
    rw [update_self]
    by_cases hname : name = supervisor
    · subst hname
      rw [if_pos rfl, if_pos rfl]
      have hcnt := h name pid'
      split
      · rename_i hmem
        have hpos := List.count_pos_iff.mpr hmem
        split at hcnt <;> omega
      · rename_i hmem
        rw [List.count_append, List.count_eq_zero_of_not_mem hmem, List.count_singleton_self]
    · have hother : ¬some supervisor = some name := fun heq => hname (Option.some.inj heq).symm
      rw [if_neg hname, if_neg hother, h name pid']
      refine if_neg fun heq => ?_
      rcases hsink with hnone | hsome
      · rw [hnone] at heq
        cases heq
      · exact hother (hsome ▸ heq)
  · rw [update_of_ne hp, ← h name pid']
    by_cases hname : name = supervisor
    · subst hname
      rw [if_pos rfl]
      split
      · rfl
      have hne : ¬pid = pid' := fun heq => hp heq.symm
      rw [List.count_append, List.count_singleton, beq_eq_false_iff_ne.mpr hne]
      rfl
    · rw [if_neg hname]

theorem Listed.remove {sink : Nat → Option String} (h : s.Listed sink)
    {supervisor : String} (hsink : sink pid = some supervisor) :
    (s.removeSupervisorChild supervisor pid).Listed (update sink pid none) := by
  intro name pid'
  rw [children_removeSupervisorChild]
  by_cases hp : pid' = pid
  · subst hp
    have hnone : ¬(none : Option String) = some name := fun heq => by cases heq
    rw [update_self, if_neg hnone]
    by_cases hname : name = supervisor
    · rw [if_pos hname]
      exact List.count_eq_zero_of_not_mem (by simp)
    · rw [if_neg hname, h name pid', hsink]
      exact if_neg fun heq => hname (Option.some.inj heq).symm
  · rw [update_of_ne hp, ← h name pid']
    by_cases hname : name = supervisor
    · rw [if_pos hname, hname]
      exact List.count_filter (by simpa using hp)
    · rw [if_neg hname]

theorem Listed.unlist (h : s.Listed s.sink) (supervisor : Option String)
    (pid : Nat) (hother : s.sink pid ≠ supervisor ∨ s.sink pid = none) :
    (s.unlist supervisor pid).Listed (update s.sink pid none) := by
  unfold Supervision.unlist
  cases hsink : s.lifecycleSinks.lookup pid with
  | none =>
    have hself : update s.sink pid none = s.sink := by
      have hnone : s.sink pid = none := hsink
      rw [← hnone, update_eq_self]
    rw [hself]
    exact h
  | some old =>
    have hold : s.sink pid = some old := hsink
    have hne : some old ≠ supervisor := by
      rcases hother with hother | hother
      · rwa [hold] at hother
      · rw [hold] at hother
        cases hother
    dsimp only
    rw [if_pos hne]
    exact h.remove hold

structure ChildrenKept (s : Supervision) : Prop where
  fresh : ∀ pid, (s.rt.bodies.body pid).isSome = true → pid < s.rt.bodies.nextPid
  live : ∀ pid name, s.sink pid = some name → (s.rt.bodies.body pid).isSome = true
  listed : s.Listed s.sink

theorem sink_insert (s : Supervision) (pid : Nat) (supervisor : String) :
    (fun p => (s.lifecycleSinks.insert pid supervisor).lookup p) =
      update s.sink pid (some supervisor) := by
  funext p
  rw [Assoc.lookup_insert_eq, update_apply, sink]

theorem ChildrenKept.congr (h : s.ChildrenKept) (hnext : s'.rt.bodies.nextPid = s.rt.bodies.nextPid)
    (hlive : ∀ pid, (s'.rt.bodies.body pid).isSome = (s.rt.bodies.body pid).isSome)
    (hsinks : s'.lifecycleSinks = s.lifecycleSinks) (htable : s'.childTable = s.childTable) :
    s'.ChildrenKept := by
  have hsink : s'.sink = s.sink := by
    funext pid
    rw [sink, hsinks, sink]
  refine ⟨fun pid hp => ?_, fun pid name hp => ?_, ?_⟩
  · rw [hnext]
    exact h.fresh pid (hlive pid ▸ hp)
  · rw [hlive]
    exact h.live pid name (hsink ▸ hp)
  · intro name pid
    rw [hsink, children, htable]
    exact h.listed name pid

theorem isSome_of_map {α β : Type} {x y : Option α} {f : α → β} (h : x.map f = y.map f) :
    x.isSome = y.isSome := by
  have hsome := congrArg Option.isSome h
  rwa [Option.isSome_map, Option.isSome_map] at hsome

theorem ChildrenKept.ran (h : s.ChildrenKept)
    (hran : s.Ran rt.bodies) : { s with rt := rt }.ChildrenKept :=
  h.congr hran.nextPid (fun pid => isSome_of_map (hran.body pid)) rfl rfl

theorem sink_nextPid (h : s.ChildrenKept) : s.sink s.rt.bodies.nextPid = none := by
  cases hsink : s.sink s.rt.bodies.nextPid with
  | none => rfl
  | some name => exact absurd (h.fresh _ (h.live _ name hsink)) (Nat.lt_irrefl _)

theorem ChildrenKept.spawned {s : Supervision} (h : s.ChildrenKept)
    (hrt : s.Spawned rt) (supervisor : Option String) :
    ({ s with rt := rt }.enlist supervisor s.rt.bodies.nextPid).ChildrenKept := by
  obtain ⟨entry, -, hbody⟩ := hrt.body
  have hlive : ∀ pid, (rt.bodies.body pid).isSome = true ↔
      pid = s.rt.bodies.nextPid ∨ (s.rt.bodies.body pid).isSome = true := by
    intro pid
    rw [hbody, update_apply]
    split
    · rename_i heq
      simp [heq]
    · rename_i hne
      simp [hne]
  have hfresh : ∀ pid, (rt.bodies.body pid).isSome = true → pid < rt.bodies.nextPid := by
    intro pid hp
    rw [hrt.nextPid]
    rcases (hlive pid).mp hp with heq | hold
    · omega
    · have := h.fresh pid hold
      omega
  cases supervisor with
  | none =>
    exact ⟨hfresh, fun pid name hp => (hlive pid).mpr (.inr (h.live pid name hp)), h.listed⟩
  | some supervisor =>
    have hsink := sink_insert s s.rt.bodies.nextPid supervisor
    refine ⟨hfresh, fun pid name hp => (hlive pid).mpr ?_, ?_⟩
    · by_cases heq : pid = s.rt.bodies.nextPid
      · exact .inl heq
      · have hold := congrFun hsink pid
        rw [update_of_ne heq] at hold
        exact .inr (h.live pid name (hold ▸ hp))
    · have hadd := h.listed.add (.inl (sink_nextPid h) : _ ∨ _ = some supervisor)
      rw [← hsink] at hadd
      exact hadd

theorem ChildrenKept.adopted (h : s.ChildrenKept)
    (hlive : (s.rt.bodies.body pid).isSome = true) (supervisor : String) :
    ((s.unlist (some supervisor) pid).enlist (some supervisor) pid).ChildrenKept := by
  have hfr := unlist_eq s (some supervisor) pid
  have hsink : (s.unlist (some supervisor) pid).sink = s.sink := by rw [hfr]; rfl
  have hrt : (s.unlist (some supervisor) pid).rt = s.rt := by rw [hfr]
  have hinsert := sink_insert (s.unlist (some supervisor) pid) pid supervisor
  rw [hsink] at hinsert
  refine ⟨fun p hp => ?_, fun p name hp => ?_, ?_⟩
  · exact hrt ▸ h.fresh p (hrt ▸ hp)
  · have hbody : ((s.unlist (some supervisor) pid).rt.bodies.body p).isSome = true := by
      rw [hrt]
      by_cases heq : p = pid
      · rw [heq]
        exact hlive
      have hold := congrFun hinsert p
      rw [update_of_ne heq] at hold
      exact h.live p name (hold ▸ hp)
    exact hbody
  · have hlisted : (s.unlist (some supervisor) pid).Listed (update s.sink pid none) ∨
        ((s.unlist (some supervisor) pid).Listed s.sink ∧ s.sink pid = some supervisor) := by
      by_cases hsame : s.sink pid = some supervisor
      · refine .inr ⟨?_, hsame⟩
        have hself : s.unlist (some supervisor) pid = s := by
          have hlookup : s.lifecycleSinks.lookup pid = some supervisor := hsame
          rw [unlist, hlookup]
          exact if_neg fun hne => hne rfl
        rw [hself]
        exact h.listed
      · exact .inl (h.listed.unlist _ _ (.inl hsame))
    have hadd : ((s.unlist (some supervisor) pid).addSupervisorChild supervisor pid).Listed
        (update s.sink pid (some supervisor)) := by
      rcases hlisted with hnone | ⟨hsame, hold⟩
      · have hself : update s.sink pid none pid = none ∨
            update s.sink pid none pid = some supervisor :=
          .inl (update_self pid none s.sink)
        have hadd := hnone.add hself
        rwa [update_idem] at hadd
      · exact hsame.add (.inr hold)
    rw [← hinsert] at hadd
    exact hadd

theorem foldl_refillWorkerSet (ids : List Nat) (s : Supervision) :
    (ids.foldl refillWorkerSet s).rt = s.rt ∧
      (ids.foldl refillWorkerSet s).lifecycleSinks = s.lifecycleSinks ∧
      (ids.foldl refillWorkerSet s).childTable = s.childTable := by
  induction ids generalizing s with
  | nil => exact ⟨rfl, rfl, rfl⟩
  | cons id rest ih =>
    obtain ⟨hrt, hsinks, htable⟩ := ih (s.refillWorkerSet id)
    rw [List.foldl_cons, hrt, hsinks, htable, refillWorkerSet]
    split <;> exact ⟨rfl, rfl, rfl⟩

theorem ChildrenKept.removeWorkerFromSets (h : s.ChildrenKept) (pid : Nat) :
    (s.removeWorkerFromSets pid).ChildrenKept := by
  unfold Supervision.removeWorkerFromSets
  obtain ⟨hrt, hsinks, htable⟩ := foldl_refillWorkerSet _ _
  exact h.congr (by rw [hrt]) (fun p => by rw [hrt]) hsinks htable

theorem ChildrenKept.reclaimed {s : Supervision} (h : s.ChildrenKept)
    {id pid : Nat} (hbodies : rt.bodies = (s.rt.bodies.setExec id none).setBody pid none) :
    { s.unlist none pid with
      rt := rt
      lifecycleSinks := s.lifecycleSinks.erase pid }.ChildrenKept := by
  have herase : (fun p => (s.lifecycleSinks.erase pid).lookup p) =
      update s.sink pid none := by
    funext p
    rw [Assoc.lookup_erase_eq, update_apply, sink]
  have hbody : rt.bodies.body = update s.rt.bodies.body pid none := by rw [hbodies]; rfl
  refine ⟨fun p hp => ?_, fun p name hp => ?_, ?_⟩
  · have hnext : rt.bodies.nextPid = s.rt.bodies.nextPid := by rw [hbodies]; rfl
    have hp' : (rt.bodies.body p).isSome = true := hp
    have hlt : p < rt.bodies.nextPid := by
      rw [hbody, update_apply] at hp'
      rw [hnext]
      split at hp'
      · cases hp'
      · exact h.fresh p hp'
    exact hlt
  · have hp' : update s.sink pid none p = some name := by
      rw [← herase]
      exact hp
    have hlive : (rt.bodies.body p).isSome = true := by
      rw [hbody]
      rw [update_apply] at hp' ⊢
      split at hp'
      · cases hp'
      rename_i hne
      rw [if_neg hne]
      exact h.live p name hp'
    exact hlive
  · have hother : s.sink pid ≠ none ∨ s.sink pid = none := (em _).symm
    have hlisted := h.listed.unlist none pid hother
    rw [← herase] at hlisted
    exact hlisted

variable (s)

theorem continueWorkers_frame (task : Nat) (c : WorkerCreation) (acquired : Acquired) :
    (s.continueWorkers task c acquired).rt = s.rt ∧
      (s.continueWorkers task c acquired).lifecycleSinks = s.lifecycleSinks ∧
      (s.continueWorkers task c acquired).childTable = s.childTable := by
  unfold continueWorkers
  split
  · cases acquired <;> exact ⟨rfl, rfl, rfl⟩
  · exact ⟨rfl, rfl, rfl⟩

theorem continueRefill_frame (task id : Nat) (acquired : Acquired) :
    (s.continueRefill task id acquired).rt = s.rt ∧
      (s.continueRefill task id acquired).lifecycleSinks = s.lifecycleSinks ∧
      (s.continueRefill task id acquired).childTable = s.childTable := by
  unfold continueRefill
  cases s.workerSets[id]? with
  | none => exact ⟨rfl, rfl, rfl⟩
  | some set =>
    dsimp only
    split
    · exact ⟨rfl, rfl, rfl⟩
    · cases acquired <;> exact ⟨rfl, rfl, rfl⟩

theorem receiveRefill_frame (task id pid : Nat) (acquired : Acquired) :
    (s.receiveRefill task id pid acquired).rt = s.rt ∧
      (s.receiveRefill task id pid acquired).lifecycleSinks = s.lifecycleSinks ∧
      (s.receiveRefill task id pid acquired).childTable = s.childTable := by
  unfold receiveRefill
  cases s.workerSets[id]? with
  | none => exact ⟨rfl, rfl, rfl⟩
  | some set => exact continueRefill_frame _ task id acquired

variable {s}

theorem ChildrenKept.of_frame (h : s.ChildrenKept)
    (hfr : s'.rt = s.rt ∧ s'.lifecycleSinks = s.lifecycleSinks ∧ s'.childTable = s.childTable) :
    s'.ChildrenKept := by
  obtain ⟨hrt, hsinks, htable⟩ := hfr
  exact h.congr (by rw [hrt]) (fun pid => by rw [hrt]) hsinks htable

theorem ChildrenKept.step {s : Supervision} {op : SupervisionOp} (h : s.ChildrenKept)
    (hstep : s.OpStep op s') : s'.ChildrenKept := by
  cases hstep with
  | same => exact h
  | ran hran => exact h.ran hran
  | spawned sink hrt => exact h.spawned hrt sink
  | adopted hlive => exact h.adopted hlive _
  | reclaimed hexec hlast hbodies => exact (h.reclaimed hbodies).removeWorkerFromSets _
  | asked | dismissed | refillEnded | refillDropped | turned => exact h.of_frame ⟨rfl, rfl, rfl⟩
  | continued hc => exact h.of_frame (continueWorkers_frame s _ _ _)
  | hired hc hrt => exact (h.spawned hrt (some _)).of_frame (continueWorkers_frame _ _ _ _)
  | refillContinued hr => exact h.of_frame (continueRefill_frame s _ _ _)
  | refillHired hr hset hrt =>
    exact (h.spawned hrt (some _)).of_frame (receiveRefill_frame _ _ _ _ _)

section
variable (specs : List RuntimeProcessSpec) (policy : String → Option RuntimeSupervisorPolicy)
include specs policy

theorem childrenKept_start : (start specs policy).ChildrenKept := by
  refine ⟨fun pid hp => ?_, fun pid name hp => ?_, fun name pid => ?_⟩
  · simp [start, ProcessRuntime.bodies, lookup] at hp
  · simp [start, sink] at hp
  · simp [start, sink, children]

theorem childrenKept_run (ops : List SupervisionOp) :
    ((start specs policy).run ops).ChildrenKept := by
  refine List.foldlRecOn ops step (childrenKept_start specs policy) ?_
  intro s hs op hop
  exact hs.step (exec_step s op)

/-- Along every run: a live body stands once in the list of its sink and in no
other list, a listed pid is live and has that sink, and an adoption that is
refused changes nothing. -/
theorem supervisor_children_exact (ops : List SupervisionOp) : let s := (start specs policy).run ops
    (∀ pid name, s.lifecycleSinks.lookup pid = some name →
        pid ∈ s.rt.processes ∧ (s.children name).count pid = 1 ∧
          ∀ other, other ≠ name → pid ∉ s.children other) ∧
      (∀ name pid, pid ∈ s.children name →
        pid ∈ s.rt.processes ∧ s.lifecycleSinks.lookup pid = some name) ∧
      ∀ live supervisor pid, (s.supervisorAdopt live supervisor pid).1.isComplete = false →
        (s.supervisorAdopt live supervisor pid).2 = s := by
  intro s
  have hkept : s.ChildrenKept := childrenKept_run specs policy ops
  have hmem : ∀ pid, (s.rt.bodies.body pid).isSome = true → pid ∈ s.rt.processes := by
    intro pid hp
    exact Std.TreeMap.isSome_getElem?_iff_mem.mp hp
  refine ⟨fun pid name hsink => ?_, fun name pid hpid => ?_, fun live supervisor pid hout => ?_⟩
  · refine ⟨hmem pid (hkept.live pid name hsink), ?_, fun other hne hother => ?_⟩
    · rw [hkept.listed name pid]
      exact if_pos hsink
    · have hpos := List.count_pos_iff.mpr hother
      rw [hkept.listed other pid, if_neg] at hpos
      · exact absurd hpos (Nat.lt_irrefl 0)
      intro heq
      rw [sink, hsink] at heq
      exact hne (Option.some.inj heq).symm
  · have hpos := List.count_pos_iff.mpr hpid
    rw [hkept.listed name pid] at hpos
    split at hpos
    · rename_i hsink
      exact ⟨hmem pid (hkept.live pid name hsink), hsink⟩
    · exact absurd hpos (Nat.lt_irrefl 0)
  · rcases supervisorAdopt_cases s live supervisor pid with ⟨-, h⟩ | ⟨hdone, -, -⟩
    · exact h
    · rw [hout] at hdone
      cases hdone

end

end Supervision

end Surtr.Eldr.Runtime
