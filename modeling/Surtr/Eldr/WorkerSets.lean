import Surtr.Lib.RoundRobin
import Surtr.Eldr.SupervisionStep

/-!
# The invariants of worker sets

One continuation at a time refills a set. No execution runs on a worker of a set
that is still being created.
-/

namespace Surtr.Eldr.Runtime
open Surtr.Sindr Surtr.Lib WorkerSetState Bodies List

def Bodies.Live (B : Bodies) (pid : Nat) : Prop := (B.body pid).isSome = true

/-- Distinct live workers, no more than asked for. -/
structure Roster (live : Nat → Prop) (members : List Nat) (wanted : Int) : Prop where
  nodup : members.Nodup
  live : ∀ pid ∈ members, live pid
  target : 0 ≤ wanted
  bounded : members.length ≤ wanted.toNat

namespace Roster
variable {live live' : Nat → Prop} {members : List Nat} {wanted : Int}

theorem imp (h : Roster live members wanted) (himp : ∀ pid ∈ members, live pid → live' pid) :
    Roster live' members wanted :=
  { h with live := fun pid hp => himp pid hp (h.live pid hp) }

theorem concat (h : Roster live members wanted) {pid : Nat} (hlive : live pid)
    (hnew : pid ∉ members) (hroom : members.length < wanted.toNat) :
    Roster live (members ++ [pid]) wanted where
  nodup := by
    rw [← concat_eq_append]
    exact h.nodup.concat hnew
  live := forall_mem_append.mpr ⟨h.live, forall_mem_singleton.mpr hlive⟩
  target := h.target
  bounded := by
    rw [length_append, length_singleton]
    exact hroom

end Roster

structure WorkerSetState.Kept (live : Nat → Prop) (set : WorkerSetState) : Prop extends
    Roster live set.members set.target where
  valid : set.nextIndex < set.members.length ∨ set.nextIndex = 0

abbrev WorkerCreation.Kept (live : Nat → Prop) (c : WorkerCreation) : Prop :=
  Roster live c.members c.strategy.target

theorem WorkerSetState.Kept.imp {live live' : Nat → Prop} {set : WorkerSetState}
    (h : set.Kept live) (himp : ∀ pid ∈ set.members, live pid → live' pid) : set.Kept live' :=
  ⟨h.toRoster.imp himp, h.valid⟩

theorem WorkerSetState.without_eq (set : WorkerSetState) (pid : Nat) : set.without pid = { set with
      members := set.members.filter (· ≠ pid)
      nextIndex := if (set.members.filter (· ≠ pid)).length ≤ set.nextIndex then 0
        else set.nextIndex } := by
  unfold without
  split
  · rfl
  rename_i h
  rw [not_or, not_and_or] at h
  have hself : set.members.filter (· ≠ pid) = set.members := by
    refine filter_eq_self.mpr fun p hp => ?_
    simp only [ne_eq, decide_eq_true_eq]
    exact fun heq => h.1 (heq ▸ hp)
  have hindex : (if set.members.length ≤ set.nextIndex then 0 else set.nextIndex) =
      set.nextIndex := by
    split
    · omega
    · rfl
  rw [hself, hindex]

theorem WorkerSetState.Kept.without {live : Nat → Prop} {set : WorkerSetState} (h : set.Kept live)
    (pid : Nat) : (set.without pid).Kept fun p => live p ∧ p ≠ pid := by
  rw [without_eq]
  have hlen := length_filter_le (· ≠ pid) set.members
  refine ⟨⟨h.nodup.filter _, fun p hp => ?_, h.target, hlen.trans h.bounded⟩, ?_⟩
  · obtain ⟨hmem, hne⟩ := mem_filter.mp hp
    exact ⟨h.live p hmem, by simpa using hne⟩
  · dsimp only
    split <;> omega

namespace Supervision

/-- `received` is a refill that has got its worker and has not looked at its set
since. -/
structure SetsKept (s : Supervision) (received : Option Nat) : Prop where
  fresh : ∀ pid, s.rt.bodies.Live pid → pid < s.rt.bodies.nextPid
  identity : ∀ pid entry, s.rt.bodies.body pid = some entry → entry.identity.id = pid
  execs : ∀ id record, s.rt.bodies.exec id = some record →
    record.pid.id < s.rt.bodies.nextPid ∧ s.isUnborn record.pid.id = false
  sets : ∀ (id : Nat) (set : WorkerSetState), s.workerSets[id]? = some set →
    set.Kept s.rt.bodies.Live
  numbered : ∀ (id : Nat) (set : WorkerSetState), s.workerSets[id]? = some set →
    id < s.nextWorkersId
  creations : ∀ (task : Nat) (c : WorkerCreation) (stage : SpawnStage),
    s.creations[task]? = some (c, stage) → c.Kept s.rt.bodies.Live ∧
      (stage = .spawning → c.members.length < c.strategy.target.toNat)
  tasks : ∀ (task id : Nat) (stage : SpawnStage), s.refills[task]? = some (id, stage) →
    task < s.nextTask ∧ id ∈ s.refillingWorkerSets
  single : ∀ (task task' id : Nat) (stage stage' : SpawnStage),
    s.refills[task]? = some (id, stage) → s.refills[task']? = some (id, stage') → task = task'
  refilled : ∀ (task id : Nat) (stage : SpawnStage), s.refills[task]? = some (id, stage) →
    ∃ set : WorkerSetState, s.workerSets[id]? = some set ∧
      (stage = .spawning → received = some task ∨ set.members.length < set.target.toNat)

theorem isUnborn_iff (s : Supervision) (pid : Nat) :
    s.isUnborn pid = true ↔ ∃ (task : Nat) (c : WorkerCreation) (stage : SpawnStage),
      s.creations[task]? = some (c, stage) ∧ pid ∈ c.members := by
  unfold isUnborn
  rw [any_eq_true]
  constructor
  · rintro ⟨⟨task, c, stage⟩, hmem, hpid⟩
    exact ⟨task, c, stage, Std.TreeMap.mem_toList_iff_getElem?_eq_some.mp hmem, by simpa using hpid⟩
  · rintro ⟨task, c, stage, hget, hpid⟩
    exact ⟨(task, c, stage), Std.TreeMap.mem_toList_iff_getElem?_eq_some.mpr hget,
      by simpa using hpid⟩

theorem isUnborn_eq_false {s : Supervision} {pid : Nat} :
    s.isUnborn pid = false ↔ ∀ (task : Nat) (c : WorkerCreation) (stage : SpawnStage),
      s.creations[task]? = some (c, stage) → pid ∉ c.members := by
  rw [← Bool.not_eq_true, isUnborn_iff]
  constructor
  · intro h task c stage hget hpid
    exact h ⟨task, c, stage, hget, hpid⟩
  · rintro h ⟨task, c, stage, hget, hpid⟩
    exact h task c stage hget hpid

theorem getElem?_map_without_of_some {sets : RuntimeTable WorkerSetState} {id : Nat}
    {set : WorkerSetState} (h : sets[id]? = some set) (pid : Nat) :
    (sets.map fun _ set => without set pid)[id]? = some (set.without pid) := by
  rw [Std.TreeMap.getElem?_map, h]
  rfl

theorem getElem?_map_without {sets : RuntimeTable WorkerSetState} {id pid : Nat}
    {set' : WorkerSetState} (h : (sets.map fun _ set => without set pid)[id]? = some set') :
    ∃ set : WorkerSetState, sets[id]? = some set ∧ set.without pid = set' := by
  rw [Std.TreeMap.getElem?_map] at h
  exact Option.map_eq_some_iff.mp h

section
variable {received : Option Nat} {s : Supervision} {stage : SpawnStage} {task id : Nat}
  {set : WorkerSetState} {rt : ProcessRuntime}

theorem live_congr {B B' : Bodies} {pid : Nat} (h : (B'.body pid).map ProcessInstance.identity =
    (B.body pid).map ProcessInstance.identity) : B'.Live pid ↔ B.Live pid := by
  have hsome := congrArg Option.isSome h
  rw [Option.isSome_map, Option.isSome_map] at hsome
  rw [Live, Live, hsome]

theorem live_spawned (hrt : s.Spawned rt) (pid : Nat) :
    rt.bodies.Live pid ↔ pid = s.rt.bodies.nextPid ∨ s.rt.bodies.Live pid := by
  obtain ⟨entry, -, hbody⟩ := hrt.body
  rw [Live, Live, hbody, Function.update_apply]
  split
  · rename_i heq
    simp [heq]
  · rename_i hne
    simp [hne]

def lacking (s : Supervision) (pid : Nat) : List Nat :=
  (s.workerSets.toList.filter fun e =>
    (e.2.without pid).members.length ≠ e.2.members.length &&
      decide ((e.2.without pid).members.length < e.2.target.toNat)).map Prod.fst

theorem removeWorkerFromSets_eq (s : Supervision) (pid : Nat) :
    s.removeWorkerFromSets pid = (s.lacking pid).foldl refillWorkerSet
      { s with workerSets := s.workerSets.map fun _ set => without set pid } := rfl

theorem mem_lacking {pid : Nat} :
    id ∈ s.lacking pid ↔ ∃ set : WorkerSetState, s.workerSets[id]? = some set ∧
      (set.without pid).members.length ≠ set.members.length ∧
      (set.without pid).members.length < set.target.toNat := by
  unfold lacking
  rw [mem_map]
  constructor
  · rintro ⟨⟨id', set⟩, hmem, rfl⟩
    rw [mem_filter, Std.TreeMap.mem_toList_iff_getElem?_eq_some] at hmem
    exact ⟨set, hmem.1, by simpa using hmem.2⟩
  · rintro ⟨set, hset, hless⟩
    refine ⟨(id, set), mem_filter.mpr ⟨?_, by simpa using hless⟩, rfl⟩
    exact Std.TreeMap.mem_toList_iff_getElem?_eq_some.mpr hset

section
variable (h : s.SetsKept received)
include h

theorem SetsKept.withSets {sets : RuntimeTable WorkerSetState}
    {next : Nat} (hkept : ∀ (id : Nat) (set : WorkerSetState), sets[id]? = some set →
      set.Kept s.rt.bodies.Live ∧ id < next)
    (hrefilled : ∀ (id : Nat) (set : WorkerSetState), s.workerSets[id]? = some set →
      ∃ set' : WorkerSetState, sets[id]? = some set' ∧ set'.target = set.target ∧
        set'.members.length ≤ set.members.length) :
    { s with workerSets := sets, nextWorkersId := next }.SetsKept received :=
  { h with
    sets := fun id set hset => (hkept id set hset).1
    numbered := fun id set hset => (hkept id set hset).2
    refilled := fun task id stage hr => by
      obtain ⟨set, hset, hroom⟩ := h.refilled task id stage hr
      obtain ⟨set', hset', htgt, hlen⟩ := hrefilled id set hset
      refine ⟨set', hset', fun hstage => (hroom hstage).imp_right fun hlt => ?_⟩
      rw [htgt]
      omega }

theorem SetsKept.withCreations {creations : RuntimeTable (WorkerCreation × SpawnStage)}
    (hkept : ∀ (task : Nat) (c : WorkerCreation) (stage : SpawnStage),
      creations[task]? = some (c, stage) →
        s.creations[task]? = some (c, stage) ∨ (c.Kept s.rt.bodies.Live ∧
          (stage = .spawning → c.members.length < c.strategy.target.toNat) ∧
          ∀ id record, s.rt.bodies.exec id = some record → record.pid.id ∉ c.members)) :
    { s with creations := creations }.SetsKept received :=
  { h with
    execs := fun id record hexec => by
      obtain ⟨hlt, hborn⟩ := h.execs id record hexec
      refine ⟨hlt, isUnborn_eq_false.mpr fun task c stage hc => ?_⟩
      rcases hkept task c stage hc with hold | ⟨-, -, hidle⟩
      · exact isUnborn_eq_false.mp hborn task c stage hold
      · exact hidle id record hexec
    creations := fun task c stage hc => by
      rcases hkept task c stage hc with hold | ⟨hc', hroom, -⟩
      · exact h.creations task c stage hold
      · exact ⟨hc', hroom⟩ }

theorem SetsKept.eraseCreation (task : Nat) :
    { s with creations := s.creations.erase task }.SetsKept received :=
  h.withCreations fun _ _ _ hc => .inl (of_getElem?_erase hc).2

theorem SetsKept.insertCreation (task : Nat) {c : WorkerCreation} (hc : c.Kept s.rt.bodies.Live)
    (hroom : stage = .spawning → c.members.length < c.strategy.target.toNat)
    (hidle : ∀ id record, s.rt.bodies.exec id = some record → record.pid.id ∉ c.members) :
    { s with creations := s.creations.insert task (c, stage) }.SetsKept received := by
  refine h.withCreations fun task' c' stage' hc' => ?_
  rcases of_getElem?_insert hc' with ⟨-, ⟨⟩⟩ | ⟨-, hold⟩
  · exact .inr ⟨hc, hroom, hidle⟩
  · exact .inl hold

theorem SetsKept.nextTask : { s with nextTask := s.nextTask + 1 }.SetsKept received :=
  { h with
    tasks := fun task id stage hr => by
      obtain ⟨hlt, hmem⟩ := h.tasks task id stage hr
      exact ⟨Nat.lt_succ_of_lt hlt, hmem⟩ }

theorem SetsKept.refillWorkerSet (hset : s.workerSets[id]? = some set) :
    (s.refillWorkerSet id).SetsKept received := by
  unfold Supervision.refillWorkerSet
  split
  · exact h
  rename_i hnot
  exact { h with
    tasks := fun task₁ id₁ stage₁ h₁ => by
      rcases of_getElem?_insert h₁ with ⟨rfl, ⟨⟩⟩ | ⟨-, h₁⟩
      · exact ⟨Nat.lt_succ_self _, mem_cons_self⟩
      · obtain ⟨hlt, hmem⟩ := h.tasks task₁ id₁ stage₁ h₁
        exact ⟨Nat.lt_succ_of_lt hlt, mem_cons_of_mem _ hmem⟩
    single := fun t₁ t₂ id₁ stage₁ stage₂ h₁ h₂ => by
      rcases of_getElem?_insert h₁ with ⟨rfl, ⟨⟩⟩ | ⟨-, hold₁⟩
      · rcases of_getElem?_insert h₂ with ⟨rfl, -⟩ | ⟨-, hold₂⟩
        · rfl
        · exact absurd (h.tasks t₂ _ stage₂ hold₂).2 hnot
      · rcases of_getElem?_insert h₂ with ⟨-, ⟨⟩⟩ | ⟨-, hold₂⟩
        · exact absurd (h.tasks t₁ _ stage₁ hold₁).2 hnot
        · exact h.single t₁ t₂ id₁ stage₁ stage₂ hold₁ hold₂
    refilled := fun task₁ id₁ stage₁ h₁ => by
      rcases of_getElem?_insert h₁ with ⟨-, ⟨⟩⟩ | ⟨-, h₁⟩
      · exact ⟨set, hset, nofun⟩
      · exact h.refilled task₁ id₁ stage₁ h₁ }

theorem SetsKept.ran (hran : s.Ran rt.bodies) :
    { s with rt := rt }.SetsKept received :=
  { h with
    fresh := fun pid hp => by
      have hlt := h.fresh pid ((live_congr (hran.body pid)).mp hp)
      exact hran.nextPid.symm ▸ hlt
    identity := fun pid entry hbody => by
      have hsame := hran.body pid
      have hbody' : rt.bodies.body pid = some entry := hbody
      rw [hbody'] at hsame
      obtain ⟨old, hold, hid⟩ := Option.map_eq_some_iff.mp hsame.symm
      rw [← hid]
      exact h.identity pid old hold
    execs := fun id record hexec => by
      rcases hran.exec id record hexec with ⟨before, hbefore, hpid⟩ | ⟨hlive, hborn⟩
      · exact hpid ▸ hran.nextPid.symm ▸ h.execs id before hbefore
      · exact ⟨hran.nextPid.symm ▸ h.fresh _ hlive, hborn⟩
    sets := fun id set hset =>
      (h.sets id set hset).imp fun pid _ hp => (live_congr (hran.body pid)).mpr hp
    creations := fun task c stage hc =>
      ⟨(h.creations task c stage hc).1.imp fun pid _ hp => (live_congr (hran.body pid)).mpr hp,
        (h.creations task c stage hc).2⟩ }

theorem SetsKept.spawned (hrt : s.Spawned rt) : { s with rt := rt }.SetsKept received :=
  { h with
    fresh := fun pid hp => by
      have hlt : pid < rt.bodies.nextPid := by
        rw [hrt.nextPid]
        rcases (live_spawned hrt pid).mp hp with heq | hold
        · omega
        · have := h.fresh pid hold
          omega
      exact hlt
    identity := fun pid entry hbody => by
      obtain ⟨new, hid, hnew⟩ := hrt.body
      have hbody' : rt.bodies.body pid = some entry := hbody
      rw [hnew, Function.update_apply] at hbody'
      split at hbody'
      · rename_i heq
        cases hbody'
        rw [hid, heq]
      · exact h.identity pid entry hbody'
    execs := fun id record hexec => by
      have hexec' : s.rt.bodies.exec id = some record := hrt.exec ▸ hexec
      obtain ⟨hlt, hborn⟩ := h.execs id record hexec'
      have hlt' : record.pid.id < rt.bodies.nextPid := by
        rw [hrt.nextPid]
        omega
      exact ⟨hlt', hborn⟩
    sets := fun id set hset =>
      (h.sets id set hset).imp fun pid _ hp => (live_spawned hrt pid).mpr (.inr hp)
    creations := fun task c stage hc =>
      ⟨(h.creations task c stage hc).1.imp fun pid _ hp => (live_spawned hrt pid).mpr (.inr hp),
        (h.creations task c stage hc).2⟩ }

theorem SetsKept.withChildren (sinks : Assoc Nat String)
    (table : Assoc String (List Nat)) :
    { s with lifecycleSinks := sinks, childTable := table }.SetsKept received :=
  { h with }

theorem SetsKept.enlist (supervisor : Option String) (pid : Nat) :
    (s.enlist supervisor pid).SetsKept received := by
  cases supervisor with
  | none => exact h
  | some supervisor => exact h.withChildren _ _

theorem SetsKept.unlist (supervisor : Option String) (pid : Nat) :
    (s.unlist supervisor pid).SetsKept received := by
  unfold Supervision.unlist
  split
  · exact h
  split
  · exact h.withChildren _ _
  · exact h

theorem SetsKept.reclaimed {record : ProcessExecutionRecord}
    (hexec : s.rt.bodies.exec id = some record)
    (hbodies : rt.bodies = (s.rt.bodies.setExec id none).setBody record.pid.id none) : { s with
      rt := rt
      workerSets := s.workerSets.map fun _ set => without set record.pid.id
      }.SetsKept received := by
  have hbody : rt.bodies.body = Function.update s.rt.bodies.body record.pid.id none := by
    rw [hbodies]
    rfl
  have hnext : rt.bodies.nextPid = s.rt.bodies.nextPid := by
    rw [hbodies]
    rfl
  have hlive : ∀ pid, rt.bodies.Live pid ↔ s.rt.bodies.Live pid ∧ pid ≠ record.pid.id := by
    intro pid
    rw [Live, Live, hbody, Function.update_apply]
    split <;> simp [*]
  have hborn := isUnborn_eq_false.mp (h.execs id record hexec).2
  exact { h with
    fresh := fun pid hp => hnext.symm ▸ h.fresh pid ((hlive pid).mp hp).1
    identity := fun pid entry hent => by
      have hent' : rt.bodies.body pid = some entry := hent
      rw [hbody, Function.update_apply] at hent'
      split at hent'
      · cases hent'
      · exact h.identity pid entry hent'
    execs := fun id' record' hexec' => by
      have hexec'' : rt.bodies.exec id' = some record' := hexec'
      rw [hbodies] at hexec''
      simp only [setBody, setExec, Function.update_apply] at hexec''
      split at hexec''
      · cases hexec''
      · exact hnext.symm ▸ h.execs id' record' hexec''
    sets := fun id' set' hset' => by
      obtain ⟨set, hset, rfl⟩ := getElem?_map_without hset'
      exact ((h.sets id' set hset).without record.pid.id).imp fun pid _ hp => (hlive pid).mpr hp
    numbered := fun id' set' hset' => by
      obtain ⟨set, hset, rfl⟩ := getElem?_map_without hset'
      exact h.numbered id' set hset
    creations := fun task c stage hc => by
      obtain ⟨hkept, hroom⟩ := h.creations task c stage hc
      refine ⟨hkept.imp fun pid hp hold => (hlive pid).mpr ⟨hold, ?_⟩, hroom⟩
      rintro rfl
      exact hborn task c stage hc hp
    refilled := fun task id' stage hr => by
      obtain ⟨set, hset, hroom⟩ := h.refilled task id' stage hr
      refine ⟨set.without record.pid.id, getElem?_map_without_of_some hset _, fun hstage => ?_⟩
      rw [without_eq]
      exact (hroom hstage).imp_right fun hlt =>
        Nat.lt_of_le_of_lt (length_filter_le _ _) hlt }

theorem SetsKept.foldl_refillWorkerSet {ids : List Nat}
    (hids : ∀ id ∈ ids, ∃ set : WorkerSetState, s.workerSets[id]? = some set) :
    (ids.foldl Supervision.refillWorkerSet s).SetsKept received := by
  induction ids generalizing s with
  | nil => exact h
  | cons id rest ih =>
    obtain ⟨set, hset⟩ := hids id mem_cons_self
    refine ih (h.refillWorkerSet hset) fun id' hid' => ?_
    obtain ⟨set', hset'⟩ := hids id' (mem_cons_of_mem _ hid')
    refine ⟨set', ?_⟩
    unfold Supervision.refillWorkerSet
    split <;> exact hset'

theorem SetsKept.insertSet {set' : WorkerSetState}
    (hset : s.workerSets[id]? = some set) (hkept : set'.Kept s.rt.bodies.Live)
    (htgt : set'.target = set.target) (hlen : set'.members.length ≤ set.members.length) :
    { s with workerSets := s.workerSets.insert id set' }.SetsKept received := by
  refine h.withSets (fun id' set₁ h₁ => ?_) (fun id' set₁ h₁ => ?_)
  · rcases of_getElem?_insert h₁ with ⟨rfl, rfl⟩ | ⟨-, h₁⟩
    · exact ⟨hkept, h.numbered id' set hset⟩
    · exact ⟨h.sets id' set₁ h₁, h.numbered id' set₁ h₁⟩
  · rw [getElem?_insert_eq]
    split
    · rename_i heq
      rw [heq, hset] at h₁
      cases h₁
      exact ⟨set', rfl, htgt, hlen⟩
    · exact ⟨set₁, h₁, rfl, le_refl _⟩

theorem SetsKept.continueWorkers (task : Nat)
    {c : WorkerCreation} (hc : c.Kept s.rt.bodies.Live)
    (hidle : ∀ id record, s.rt.bodies.exec id = some record → record.pid.id ∉ c.members)
    (acquired : Acquired) : (s.continueWorkers task c acquired).SetsKept received := by
  unfold Supervision.continueWorkers
  split
  · rename_i hroom
    cases acquired with
    | bindings => exact h.insertCreation task hc (fun _ => hroom) hidle
    | metadataError => exact h.eraseCreation task
    | openError => exact h.insertCreation task hc (fun hstage => by cases hstage) hidle
  · refine (h.eraseCreation task).withSets (fun id set hset => ?_) (fun id set hset => ?_)
    · rcases of_getElem?_insert hset with ⟨rfl, rfl⟩ | ⟨-, hset⟩
      · exact ⟨⟨hc, .inr rfl⟩, Nat.lt_succ_self _⟩
      · exact ⟨h.sets id set hset, Nat.lt_succ_of_lt (h.numbered id set hset)⟩
    · have hne : id ≠ s.nextWorkersId := Nat.ne_of_lt (h.numbered id set hset)
      rw [getElem?_insert_eq, if_neg hne]
      exact ⟨set, hset, rfl, le_refl _⟩

section
variable (hreceived : ∀ t, received = some t → t = task)

theorem SetsKept.withRefills {refills : RuntimeTable (Nat × SpawnStage)}
    (hold : ∀ {task id : Nat} {stage : SpawnStage}, refills[task]? = some (id, stage) →
      ∃ stage', s.refills[task]? = some (id, stage'))
    (hroom : ∀ (task id : Nat) (stage : SpawnStage), refills[task]? = some (id, stage) →
      ∃ set : WorkerSetState, s.workerSets[id]? = some set ∧
        (stage = .spawning → set.members.length < set.target.toNat)) :
    { s with refills := refills }.SetsKept none :=
  { h with
    tasks := fun task id stage hr => by
      obtain ⟨stage', hr'⟩ := hold hr
      exact h.tasks task id stage' hr'
    single := fun t₁ t₂ id stage₁ stage₂ h₁ h₂ => by
      obtain ⟨_, h₁'⟩ := hold h₁
      obtain ⟨_, h₂'⟩ := hold h₂
      exact h.single t₁ t₂ id _ _ h₁' h₂'
    refilled := fun task id stage hr => by
      obtain ⟨set, hset, hlt⟩ := hroom task id stage hr
      exact ⟨set, hset, fun hstage => .inr (hlt hstage)⟩ }

include hreceived

theorem SetsKept.room_of_ne {task' : Nat} (hne : task' ≠ task)
    (hr : s.refills[task']? = some (id, stage)) :
    ∃ set : WorkerSetState, s.workerSets[id]? = some set ∧
      (stage = .spawning → set.members.length < set.target.toNat) := by
  obtain ⟨set, hset, hroom⟩ := h.refilled task' id stage hr
  exact ⟨set, hset, fun hstage =>
    (hroom hstage).resolve_left fun heq => hne (hreceived task' heq)⟩

theorem SetsKept.dropRefill : (s.dropRefill task).SetsKept none :=
  h.withRefills (fun hr => ⟨_, (of_getElem?_erase hr).2⟩) fun _ _ _ hr =>
    h.room_of_ne hreceived (of_getElem?_erase hr).1 (of_getElem?_erase hr).2

theorem SetsKept.endRefill (hr : s.refills[task]? = some (id, stage)) :
    (s.endRefill task id).SetsKept none :=
  { h.dropRefill hreceived with
    tasks := fun task' id' stage' hr' => by
      have hdrop := (h.dropRefill hreceived).tasks task' id' stage' hr'
      refine ⟨hdrop.1, mem_filter.mpr ⟨hdrop.2, ?_⟩⟩
      -- no other task refills this set
      simp only [ne_eq, decide_eq_true_eq]
      rintro rfl
      obtain ⟨hne, hold⟩ := of_getElem?_erase hr'
      exact hne (h.single task' task id' stage' stage hold hr) }

theorem SetsKept.advanceRefill {stage' : SpawnStage} (hr : s.refills[task]? = some (id, stage))
    (hset : s.workerSets[id]? = some set)
    (hroom : stage' = .spawning → set.members.length < set.target.toNat) :
    { s with refills := s.refills.insert task (id, stage') }.SetsKept none := by
  refine h.withRefills (fun h₁ => ?_) fun task₁ id₁ stage₁ h₁ => ?_
  · rcases of_getElem?_insert h₁ with ⟨rfl, ⟨⟩⟩ | ⟨-, h₁⟩
    · exact ⟨stage, hr⟩
    · exact ⟨_, h₁⟩
  · rcases of_getElem?_insert h₁ with ⟨rfl, ⟨⟩⟩ | ⟨hne, h₁⟩
    · exact ⟨set, hset, hroom⟩
    · exact h.room_of_ne hreceived hne h₁

theorem SetsKept.continueRefill (hr : s.refills[task]? = some (id, stage)) (acquired : Acquired) :
    (s.continueRefill task id acquired).SetsKept none := by
  unfold Supervision.continueRefill
  cases hset : s.workerSets[id]? with
  | none => exact h.dropRefill hreceived
  | some set =>
    dsimp only
    split
    · exact h.endRefill hreceived hr
    cases acquired with
    | bindings => exact h.advanceRefill hreceived hr hset fun _ => by omega
    | metadataError => exact h.dropRefill hreceived
    | openError => exact h.advanceRefill hreceived hr hset fun hstage => by cases hstage

end

end

end

section
variable {s : Supervision} (h : s.SetsKept none) {rt : ProcessRuntime}
include h

theorem SetsKept.receiveRefill {task id pid : Nat}
    (hr : s.refills[task]? = some (id, .spawning)) (hlive : s.rt.bodies.Live pid)
    (hnew : ∀ set : WorkerSetState, s.workerSets[id]? = some set → pid ∉ set.members)
    (acquired : Acquired) : (s.receiveRefill task id pid acquired).SetsKept none := by
  obtain ⟨set, hset, hroom⟩ := h.refilled task id .spawning hr
  have hlt : set.members.length < set.target.toNat := by
    rcases hroom rfl with heq | hlt
    · cases heq
    · exact hlt
  have hold := h.sets id set hset
  unfold Supervision.receiveRefill
  rw [hset]
  have hkept : Kept s.rt.bodies.Live { set with members := set.members ++ [pid] } := by
    refine ⟨hold.concat hlive (hnew set hset) hlt, ?_⟩
    rw [length_append, length_singleton]
    exact hold.valid.imp_left Nat.lt_succ_of_lt
  have hreceived : { s with
      workerSets := s.workerSets.insert id { set with members := set.members ++ [pid] }
      }.SetsKept (some task) :=
    { h with
      sets := fun id' set' hset' => by
        rcases of_getElem?_insert hset' with ⟨-, rfl⟩ | ⟨-, hset'⟩
        · exact hkept
        · exact h.sets id' set' hset'
      numbered := fun id' set' hset' => by
        rcases of_getElem?_insert hset' with ⟨rfl, -⟩ | ⟨-, hset'⟩
        · exact h.numbered id' set hset
        · exact h.numbered id' set' hset'
      refilled := fun task' id' stage' hr' => by
        obtain ⟨set', hset', hroom'⟩ := h.refilled task' id' stage' hr'
        rw [getElem?_insert_eq]
        split
        · rename_i heq
          subst heq
          exact ⟨_, rfl, fun _ => .inl (congrArg some (h.single task task' id' _ _ hr hr'))⟩
        · exact ⟨set', hset', fun hstage => .inr ((hroom' hstage).resolve_left (by simp))⟩ }
  exact hreceived.continueRefill (fun t heq => (Option.some.inj heq).symm) hr acquired

theorem nextPid_not_mem {members : List Nat}
    (hlive : ∀ pid ∈ members, s.rt.bodies.Live pid) : s.rt.bodies.nextPid ∉ members :=
  fun hmem => Nat.lt_irrefl _ (h.fresh _ (hlive _ hmem))

theorem SetsKept.hire (hrt : s.Spawned rt) (supervisor : String) :
    (s.hire rt supervisor).SetsKept none :=
  (h.spawned hrt).enlist (some supervisor) _

theorem SetsKept.hired {task : Nat} {c : WorkerCreation} {acquired : Acquired}
    (hc : s.creations[task]? = some (c, .spawning))
    (hrt : s.Spawned rt) : ((s.hire rt c.supervisor).continueWorkers task
      { c with members := c.members ++ [s.rt.bodies.nextPid] } acquired).SetsKept none := by
  obtain ⟨hold, hroom⟩ := h.creations task c .spawning hc
  have hnew := nextPid_not_mem h hold.live
  have hkept : WorkerCreation.Kept (s.hire rt c.supervisor).rt.bodies.Live
      { c with members := c.members ++ [s.rt.bodies.nextPid] } :=
    (hold.imp fun p _ hp => (live_spawned hrt p).mpr (.inr hp)).concat
      ((live_spawned hrt _).mpr (.inl rfl)) hnew (hroom rfl)
  refine (h.hire hrt c.supervisor).continueWorkers task hkept ?_ acquired
  intro id record hexec hmem
  have hexec' : s.rt.bodies.exec id = some record := hrt.exec ▸ hexec
  obtain ⟨hlt, hborn⟩ := h.execs id record hexec'
  rcases mem_append.mp hmem with hmem | hmem
  · exact isUnborn_eq_false.mp hborn task c .spawning hc hmem
  · rw [mem_singleton.mp hmem] at hlt
    exact Nat.lt_irrefl _ hlt

theorem SetsKept.removed {id : Nat} {record : ProcessExecutionRecord}
    (hexec : s.rt.bodies.exec id = some record)
    (hbodies : rt.bodies = (s.rt.bodies.setExec id none).setBody record.pid.id none) :
    ({ s.unlist none record.pid.id with
      rt := rt
      lifecycleSinks := s.lifecycleSinks.erase record.pid.id
      }.removeWorkerFromSets record.pid.id).SetsKept none := by
  have hkept := (h.reclaimed hexec hbodies).withChildren (s.lifecycleSinks.erase record.pid.id)
    (s.unlist none record.pid.id).childTable
  rw [removeWorkerFromSets_eq, unlist_eq]
  refine hkept.foldl_refillWorkerSet fun id' hid => ?_
  obtain ⟨set, hset, -⟩ := mem_lacking.mp hid
  exact ⟨_, getElem?_map_without_of_some hset _⟩

theorem SetsKept.step {s' : Supervision} {op : SupervisionOp} (hstep : s.OpStep op s') :
    s'.SetsKept none := by
  have hnone : ∀ task t : Nat, (none : Option Nat) = some t → t = task := nofun
  cases hstep with
  | same => exact h
  | ran hran => exact h.ran hran
  | spawned sink hrt => exact (h.spawned hrt).enlist sink _
  | adopted hlive => exact (h.unlist _ _).enlist _ _
  | reclaimed hexec hlast hbodies => exact h.removed hexec hbodies
  | asked htgt =>
    refine (h.insertCreation _ ⟨nodup_nil, fun p hp => ?_, htgt, Nat.zero_le _⟩
      (fun hstage => by cases hstage) fun _ _ _ hp => ?_).nextTask
    · cases hp
    · cases hp
  | dismissed task => exact h.eraseCreation task
  | @continued c _ acquired task hc =>
    refine h.continueWorkers task (h.creations task c _ hc).1 (fun id record hexec => ?_) acquired
    exact isUnborn_eq_false.mp (h.execs id record hexec).2 task c _ hc
  | hired hc hrt => exact h.hired hc hrt
  | refillEnded hr => exact h.endRefill (hnone _) hr
  | refillDropped hr => exact h.dropRefill (hnone _)
  | refillContinued hr => exact h.continueRefill (hnone _) hr _
  | @refillHired _ _ _ _ _ rt task id set hr hset hrt =>
    exact (h.hire hrt set.supervisorName).receiveRefill hr ((live_spawned hrt _).mpr (.inl rfl))
      (fun set' hset' => nextPid_not_mem h (h.sets id set' hset').live) _
  | @turned offset _ id set pid hset hfound =>
    have hold := h.sets id set hset
    refine h.insertSet hset ⟨hold.toRoster, .inl ?_⟩ rfl (le_refl _)
    exact Nat.mod_lt _ (Nat.zero_lt_of_lt hfound.bound)

end

end Supervision

end Surtr.Eldr.Runtime
