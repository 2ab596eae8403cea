import Mathlib.Data.List.InsertIdx
import Mathlib.Logic.Relation
import Surtr.Eldr.ProcessRuntime

/-!
# Outcomes of futures (`vm.rs`, `process_continuation.rs`)

`Futures` keeps of the runtime what decides an outcome.
-/

namespace Surtr.Eldr.Runtime
open List hiding lookup
open Surtr.Sindr Surtr.Lib ProcessRuntime FutureRecord

structure Decision where
  state : FutureState
  deadlineTick : Option Nat
  cancelOnTimeout : Bool
  pending : Bool
  initDeadlineTimeout : Bool

structure Futures where
  clock : Nat
  next : Nat
  queue : List DeadlineEntry
  errorTasks : List Nat
  table : Nat → Option Decision

variable (future : FutureRecord)

namespace Decision
variable (f : Decision)

def isRunning : Bool := f.state.isRunning

/-- It has its outcome, or its error is being constructed. -/
def isDecided : Bool := !f.isRunning || f.pending

def earlier (tick : Nat) : Nat :=
  match f.deadlineTick with
  | some current => min current tick
  | none => tick

def outcome : Option Value :=
  match f.state with
  | .ready value | .cancelled value => some value
  | .running => none

end Decision

namespace Futures

section
variable (F : Futures) (id : Nat) (f : Decision)

def set : Futures :=
  { F with table := Function.update F.table id (some f) }

def disarm : Futures :=
  { F with
    queue := F.queue.filter fun entry => entry.futureId != id
    table := Function.update F.table id
      (some { f with deadlineTick := none, cancelOnTimeout := false }) }

def dropTask (index : Nat) : Futures := { F with errorTasks := F.errorTasks.eraseIdx index }

def addTask : Futures := { F with errorTasks := F.errorTasks ++ [id] }

def fail : Futures := (F.disarm id { f with pending := true }).addTask id

def isRunning : Bool :=
  match F.table id with
  | none => false
  | some f => f.isRunning

def expired (tick : Nat) : List Nat :=
  (F.queue.filter fun entry => entry.deadlineTick ≤ tick && F.isRunning entry.futureId).map
    DeadlineEntry.futureId

def retained (tick : Nat) : List DeadlineEntry :=
  F.queue.filter fun entry => !decide (entry.deadlineTick ≤ tick)

def allocate (deadlineTick : Option Nat) (cancelOnTimeout initDeadline : Bool) : Futures :=
  { F with
    next := F.next + 1
    queue := match deadlineTick with
      | some deadlineTick => F.queue ++ [{ deadlineTick, futureId := F.next }]
      | none => F.queue
    table := Function.update F.table F.next
      (some { state := .running, deadlineTick, cancelOnTimeout, pending := false
              initDeadlineTimeout := initDeadline }) }

def attach (tick : Nat) (cancelOnTimeout : Bool) : Futures :=
  let entry : DeadlineEntry := { deadlineTick := f.earlier tick, futureId := id }
  { F with
    queue := if entry ∈ F.queue then F.queue else F.queue ++ [entry]
    table := Function.update F.table id
      (some { f with
        deadlineTick := some (f.earlier tick)
        cancelOnTimeout := f.cancelOnTimeout || cancelOnTimeout }) }

def forget : Futures :=
  { F with
    queue := F.queue.filter fun entry => entry.futureId != id
    table := Function.update F.table id none }

end

variable {f g : Decision} {F F' : Futures} {id id' : Nat} {state : FutureState} {due : List Nat}
  {forced strict : Bool} {back : Nat → Prop}

/-- What a reply, an error or a timeout does to a future: nothing once it is
decided, unless the outcome is `forced` while its error is being constructed. -/
inductive Settles (forced : Bool) (F : Futures) (id : Nat) : Futures → Prop where
  | idle (hdecided : ∀ f, F.table id = some f → f.isDecided = true) : Settles forced F id F
  | outcome {f : Decision} {state : FutureState} (hf : F.table id = some f)
      (hrunning : f.isRunning = true) (hopen : forced = false → f.isDecided = false)
      (hstate : state.isRunning = false) : Settles forced F id (F.disarm id { f with state })
  | error {f : Decision} (hf : F.table id = some f) (hopen : f.isDecided = false) :
      Settles forced F id (F.fail id f)

inductive SettlesAll : List Nat → Futures → Futures → Prop where
  | nil (F : Futures) : SettlesAll [] F F
  | cons {id : Nat} {due : List Nat} {F G F' : Futures} (hfirst : Settles true F id G)
      (hrest : SettlesAll due G F') : SettlesAll (id :: due) F F'

def Advances (F : Futures) (tick : Nat) (F' : Futures) : Prop :=
  SettlesAll (F.expired tick) { F with clock := tick, queue := F.retained tick } F'

/-- An effect of an operation on the futures. With `strict`, a deadline and an error
under construction do not meet; an outcome is taken back only from the futures in
`back`. -/
inductive Step (strict : Bool) (back : Nat → Prop) : Futures → Futures → Prop where
  | allocate (F : Futures) (delay : Option Nat) (cancelOnTimeout initDeadline : Bool) :
      Step strict back F
        (F.allocate (delay.map (saturatingAdd F.clock)) cancelOnTimeout initDeadline)
  | attach (F : Futures) {id : Nat} {f : Decision} (timeoutMs : Nat) (cancelOnTimeout : Bool)
      (hf : F.table id = some f) (hrunning : f.isRunning = true)
      (hstrict : strict = true → f.isDecided = false ∧ id ∉ F.errorTasks) :
      Step strict back F (F.attach id f (saturatingAdd F.clock timeoutMs) cancelOnTimeout)
  | settles {F F' : Futures} {id : Nat} (h : Settles true F id F') : Step strict back F F'
  | poll {F F' : Futures} {elapsed : Nat} (h : F.Advances (saturatingAdd F.clock elapsed) F') :
      Step strict back F F'
  | sleep {F F' : Futures} {id : Nat} {f : Decision} {tick : Nat} (hf : F.table id = some f)
      (hrunning : f.isRunning = true) (htick : f.deadlineTick = some tick)
      (h : F.Advances tick F') : Step strict back F F'
  | write (F : Futures) {id : Nat} {f : Decision} (g : Decision) (hf : F.table id = some f)
      (hdeadline : g.deadlineTick = f.deadlineTick) (hstate : g.state = f.state ∨ back id)
      (hstrict : strict = true →
        f.deadlineTick = none ∨ f.isDecided = true ∨ id ∈ F.errorTasks) :
      Step strict back F (F.set id g)
  | addTask (F : Futures) {id : Nat} {f : Decision} (hf : F.table id = some f)
      (hdecided : f.isDecided = true) : Step strict back F (F.addTask id)
  | dropTask (F : Futures) (index : Nat) : Step strict back F (F.dropTask index)
  | forget (F : Futures) (id : Nat) : Step strict back F (F.forget id)

abbrev Steps (strict : Bool) (back : Nat → Prop) : Futures → Futures → Prop :=
  Relation.ReflTransGen (Step strict back)

theorem set_set (F : Futures) (id : Nat) (f g : Decision) : (F.set id f).set id g = F.set id g := by
  simp only [set, Function.update_idem]

theorem table_disarm (F : Futures) (id : Nat) (f : Decision) (id' : Nat) :
    (F.disarm id f).table id' = if id' = id then
      some { f with deadlineTick := none, cancelOnTimeout := false } else F.table id' := by
  simp only [disarm, Function.update_apply]

theorem isRunning_of_open (h : f.isDecided = false) : f.isRunning = true := by
  simp only [Decision.isDecided, Bool.or_eq_false_iff, Bool.not_eq_false'] at h
  exact h.1

theorem Settles.clock_eq (h : Settles forced F id F') : F'.clock = F.clock := by
  cases h <;> rfl

theorem SettlesAll.clock_eq (h : SettlesAll due F F') : F'.clock = F.clock := by
  induction h with
  | nil => rfl
  | cons hfirst _ ih => exact ih.trans hfirst.clock_eq

theorem Advances.clock_eq {tick : Nat} (h : F.Advances tick F') : F'.clock = tick :=
  SettlesAll.clock_eq h

/-! ### An outcome is final -/

structure Frozen (F : Futures) (id : Nat) (state : FutureState) : Prop where
  allocated : id < F.next
  state_eq : ∀ f, F.table id = some f → f.state = state

section
variable (hstate : state.isRunning = false)
include hstate

theorem Settles.frozen (h : Settles forced F id' F') (hF : F.Frozen id state) :
    F'.Frozen id state := by
  -- the future itself has its outcome, so only another one can be disarmed
  have hother : ∀ f, F.table id' = some f → f.isRunning = true → id ≠ id' := by
    rintro f hf hrunning rfl
    rw [Decision.isRunning, hF.state_eq f hf, hstate] at hrunning
    exact Bool.noConfusion hrunning
  have hdisarm : ∀ f g, F.table id' = some f → f.isRunning = true →
      (F.disarm id' g).Frozen id state := by
    refine fun f g hf hrunning => ⟨hF.allocated, fun f' hget => hF.state_eq f' ?_⟩
    rwa [table_disarm, if_neg (hother f hf hrunning)] at hget
  cases h with
  | idle => exact hF
  | outcome hf hrunning _ _ => exact hdisarm _ _ hf hrunning
  | error hf hopen => exact ⟨hF.allocated, (hdisarm _ _ hf (isRunning_of_open hopen)).state_eq⟩

theorem Advances.frozen {tick : Nat} (h : F.Advances tick F') (hF : F.Frozen id state) :
    F'.Frozen id state := by
  have hstart : Frozen { F with clock := tick, queue := F.retained tick } id state :=
    ⟨hF.allocated, hF.state_eq⟩
  rw [Advances] at h
  generalize F.expired tick = due, { F with clock := tick, queue := F.retained tick } = G
    at h hstart
  induction h with
  | nil => exact hstart
  | cons hfirst _ ih => exact ih (hfirst.frozen hstate hstart)

theorem Step.frozen (hback : ¬ back id) (h : Step strict back F F') (hF : F.Frozen id state) :
    F'.Frozen id state := by
  have hupdate : ∀ {id'} {g : Decision} {G : Futures}, G.next = F.next →
      G.table = Function.update F.table id' (some g) → (id = id' → g.state = state) →
      G.Frozen id state := by
    intro id' g G hnext htable hg
    refine ⟨hnext ▸ hF.allocated, fun f' hget => ?_⟩
    rw [htable, Function.update_apply] at hget
    split at hget
    case isTrue heq => rw [← Option.some.inj hget, hg heq]
    case isFalse => exact hF.state_eq f' hget
  cases h with
  | allocate delay cancelOnTimeout initDeadline =>
    refine ⟨Nat.lt_succ_of_lt hF.allocated, fun f hget => hF.state_eq f ?_⟩
    simp only [Futures.allocate, Function.update_apply, Nat.ne_of_lt hF.allocated, if_false] at hget
    exact hget
  | attach timeoutMs cancelOnTimeout hf _ _ =>
    exact hupdate rfl rfl fun heq => (hF.state_eq _ (heq ▸ hf) :)
  | settles h => exact h.frozen hstate hF
  | poll h | sleep _ _ _ h => exact h.frozen hstate hF
  | write g hf _ hsame _ =>
    refine hupdate rfl rfl fun heq => ?_
    rw [hsame.resolve_right (heq ▸ hback)]
    exact hF.state_eq _ (heq ▸ hf)
  | addTask | dropTask => exact ⟨hF.allocated, hF.state_eq⟩
  | forget id' =>
    refine ⟨hF.allocated, fun f hget => hF.state_eq f ?_⟩
    simp only [Futures.forget, Function.update_apply] at hget
    split at hget
    · exact absurd hget (by simp)
    · exact hget

theorem Steps.frozen (hback : ¬ back id) (h : Steps strict back F F') (hF : F.Frozen id state) :
    F'.Frozen id state := by
  induction h with
  | refl => exact hF
  | tail _ hstep ih => exact hstep.frozen hstate hback ih

end

/-! ### Deadlines -/

/-- What holds of the future `id`, whose deadline is in the queue unless the
future is one of `due`. -/
structure Kept (due : List Nat) (F : Futures) (id : Nat) (f : Decision) : Prop where
  fresh : id < F.next
  task_disarmed : id ∈ F.errorTasks → f.deadlineTick = none
  decided_disarmed : f.isDecided = true → f.deadlineTick = none
  deadline_le : ∀ {d}, f.deadlineTick = some d → d ≤ u64Max
  queued : ∀ {d}, f.isRunning = true → f.deadlineTick = some d →
    id ∈ due ∨ (⟨d, id⟩ ∈ F.queue ∧ F.clock ≤ d)

structure QueuedUpTo (due : List Nat) (F : Futures) : Prop where
  clock_le : F.clock ≤ u64Max
  task_fresh : ∀ id ∈ F.errorTasks, id < F.next
  kept : ∀ {id f}, F.table id = some f → F.Kept due id f

abbrev Queued (F : Futures) : Prop := F.QueuedUpTo []

variable {due' : List Nat}

theorem Kept.of_disarmed (hfresh : id < F.next) (h : f.deadlineTick = none) : F.Kept due id f :=
  ⟨hfresh, fun _ => h, fun _ => h, by simp [h], by simp [h]⟩

theorem Kept.imp (h : F.Kept due id f) (hnext : F.next ≤ F'.next)
    (htasks : id ∈ F'.errorTasks → id ∈ F.errorTasks ∨ f.deadlineTick = none)
    (hqueue : ∀ {d}, f.deadlineTick = some d → id ∈ due ∨ (⟨d, id⟩ ∈ F.queue ∧ F.clock ≤ d) →
      id ∈ due' ∨ (⟨d, id⟩ ∈ F'.queue ∧ F'.clock ≤ d)) : F'.Kept due' id f :=
  ⟨h.fresh.trans_le hnext, fun hmem => (htasks hmem).elim h.task_disarmed fun hnone => hnone,
    h.decided_disarmed, h.deadline_le, fun hrunning hd => hqueue hd (h.queued hrunning hd)⟩

theorem Queued.mem_queue (h : F.Queued) {d : Nat} (hf : F.table id = some f)
    (hrunning : f.isRunning = true) (hd : f.deadlineTick = some d) :
    ⟨d, id⟩ ∈ F.queue ∧ F.clock ≤ d :=
  ((h.kept hf).queued hrunning hd).resolve_left not_mem_nil

theorem QueuedUpTo.write (hF : F.QueuedUpTo due) (F' : Futures)
    (htable : F'.table = Function.update F.table id (some g))
    (hclock : F'.clock = F.clock) (htasks : F'.errorTasks = F.errorTasks)
    (hnext : F.next ≤ F'.next) (hnew : F'.Kept due' id g)
    (hothers : ∀ id' ≠ id, (id' ∈ due → id' ∈ due') ∧
      ∀ d, (⟨d, id'⟩ : DeadlineEntry) ∈ F.queue → ⟨d, id'⟩ ∈ F'.queue) : F'.QueuedUpTo due' := by
  refine ⟨hclock ▸ hF.clock_le,
    fun id' hmem => (hF.task_fresh id' (htasks ▸ hmem)).trans_le hnext, fun {id' f} hf => ?_⟩
  rw [htable, Function.update_apply] at hf
  split at hf
  case isTrue heq =>
    cases hf
    exact heq ▸ hnew
  case isFalse hne =>
    obtain ⟨hdue, hqueue⟩ := hothers id' hne
    refine (hF.kept hf).imp hnext (fun hmem => .inl (htasks ▸ hmem)) fun _ => ?_
    exact Or.imp hdue (And.imp (hqueue _) hclock.trans_le)

theorem QueuedUpTo.disarm (hF : F.QueuedUpTo (id :: due)) (hf : F.table id = some f) :
    (F.disarm id g).QueuedUpTo due := by
  refine hF.write (F.disarm id g) rfl rfl rfl (Nat.le_refl _)
    (.of_disarmed (hF.kept hf).fresh rfl) fun id' hne => ?_
  refine ⟨fun hmem => (mem_cons.mp hmem).resolve_left hne, fun d hmem => ?_⟩
  exact mem_filter.mpr ⟨hmem, by simpa using hne⟩

theorem QueuedUpTo.addTask
    (hF : F.QueuedUpTo due) (hf : F.table id = some f) (hdisarmed : f.deadlineTick = none) :
    (F.addTask id).QueuedUpTo due := by
  have htask : ∀ id' ∈ F.errorTasks ++ [id], id' ∈ F.errorTasks ∨ id' = id := by
    intro id' hmem
    simpa using hmem
  refine { hF with task_fresh := fun id' hmem => ?_, kept := fun {id' g} hg => ?_ }
  · obtain hmem | rfl := htask id' hmem
    · exact hF.task_fresh id' hmem
    · exact (hF.kept hf).fresh
  · refine (hF.kept hg).imp (Nat.le_refl _) (fun hmem => ?_) fun _ h => h
    refine (htask id' hmem).imp_right ?_
    rintro rfl
    cases hf.symm.trans hg
    exact hdisarmed

theorem QueuedUpTo.settles (hF : F.QueuedUpTo (id :: due)) (h : Settles forced F id F') :
    F'.QueuedUpTo due := by
  cases h with
  | idle hdecided =>
    refine { hF with kept := fun {id' f} hf => ?_ }
    refine (hF.kept hf).imp (Nat.le_refl _) .inl fun {d} hd => Or.imp_left fun hmem => ?_
    refine (mem_cons.mp hmem).resolve_left ?_
    rintro rfl
    exact absurd (((hF.kept hf).decided_disarmed (hdecided f hf)).symm.trans hd) nofun
  | outcome hf _ _ _ => exact hF.disarm hf
  | @error f hf _ =>
    have hdisarmed : (F.disarm id { f with pending := true }).QueuedUpTo due := hF.disarm hf
    exact hdisarmed.addTask (by rw [table_disarm, if_pos rfl]) rfl

theorem Queued.settles (hF : F.Queued) (h : Settles forced F id F') : F'.Queued := by
  have hup : F.QueuedUpTo [id] := { hF with
    kept := fun hf => (hF.kept hf).imp (Nat.le_refl _) .inl fun _ => .imp_left nofun }
  exact hup.settles h

theorem QueuedUpTo.settlesAll (hF : F.QueuedUpTo due) (h : SettlesAll due F F') : F'.Queued := by
  induction h with
  | nil => exact hF
  | cons hfirst _ ih => exact ih (hF.settles hfirst)

theorem Queued.advances (hF : F.Queued) {tick : Nat} (htick : tick ≤ u64Max)
    (h : F.Advances tick F') : F'.Queued := by
  refine QueuedUpTo.settlesAll ?_ h
  refine { hF with
    clock_le := htick
    kept := fun {id f} hf => { hF.kept hf with queued := fun {d} hrunning hd => ?_ } }
  obtain ⟨hmem, -⟩ := hF.mem_queue hf hrunning hd
  have hrun : F.isRunning id = true := by
    rw [isRunning, show F.table id = some f from hf]
    exact hrunning
  by_cases hlate : d ≤ tick
  · refine .inl (mem_map.mpr ⟨⟨d, id⟩, mem_filter.mpr ⟨hmem, ?_⟩, rfl⟩)
    simp [hlate, hrun]
  · exact .inr ⟨mem_filter.mpr ⟨hmem, by simpa using hlate⟩, by simp only; omega⟩

theorem saturatingAdd_le (a b : Nat) : saturatingAdd a b ≤ u64Max := Nat.min_le_right _ _

theorem le_saturatingAdd {a : Nat} (b : Nat) (h : a ≤ u64Max) : a ≤ saturatingAdd a b := by
  unfold saturatingAdd
  omega

theorem Queued.allocate (hF : F.Queued) (delay : Option Nat) (cancelOnTimeout initDeadline : Bool) :
    (F.allocate (delay.map (saturatingAdd F.clock)) cancelOnTimeout initDeadline).Queued := by
  refine hF.write (F.allocate _ _ _) rfl rfl rfl (Nat.le_succ _)
    ⟨Nat.lt_succ_self _, fun htask => absurd (hF.task_fresh _ htask) (Nat.lt_irrefl _), nofun,
      fun {d} hd => ?_, fun {d} _ hd => ?_⟩ fun id' hne => ?_
  · obtain ⟨ms, _, rfl⟩ := Option.map_eq_some_iff.mp hd
    exact saturatingAdd_le _ _
  · obtain ⟨ms, rfl, rfl⟩ := Option.map_eq_some_iff.mp hd
    exact .inr ⟨by simp [Futures.allocate], le_saturatingAdd ms hF.clock_le⟩
  · refine ⟨fun h => h, fun d hmem => ?_⟩
    cases delay with
    | none => exact hmem
    | some ms => exact mem_append_left _ hmem

theorem Queued.attach (hF : F.Queued) (timeoutMs : Nat)
    (cancelOnTimeout : Bool) (hf : F.table id = some f) (hrunning : f.isRunning = true)
    (hopen : f.isDecided = false) (htask : id ∉ F.errorTasks) :
    (F.attach id f (saturatingAdd F.clock timeoutMs) cancelOnTimeout).Queued := by
  have hnew := le_saturatingAdd timeoutMs hF.clock_le
  have hmax := saturatingAdd_le F.clock timeoutMs
  have hbounds : F.clock ≤ f.earlier (saturatingAdd F.clock timeoutMs) ∧
      f.earlier (saturatingAdd F.clock timeoutMs) ≤ u64Max := by
    unfold Decision.earlier
    split
    case h_1 current hold =>
      have hclock := (hF.mem_queue hf hrunning hold).2
      omega
    case h_2 => exact ⟨hnew, hmax⟩
  refine hF.write (F.attach _ _ _ _) rfl rfl rfl (Nat.le_refl _)
    ⟨(hF.kept hf).fresh, fun hmem => absurd hmem htask,
      fun hdecided => Bool.noConfusion (hopen.symm.trans hdecided),
      fun {d} hd => ?_, fun {d} _ hd => ?_⟩ fun id' hne => ?_
  · rw [← Option.some.inj hd]
    exact hbounds.2
  · rw [← Option.some.inj hd]
    refine .inr ⟨?_, hbounds.1⟩
    simp only [Futures.attach]
    split
    · assumption
    · simp
  · refine ⟨fun h => h, fun d hmem => ?_⟩
    simp only [Futures.attach]
    split
    · exact hmem
    · exact mem_append_left _ hmem

theorem Queued.set (hF : F.Queued) (hf : F.table id = some f) (hdisarmed : g.deadlineTick = none) :
    (F.set id g).Queued :=
  hF.write (F.set id g) rfl rfl rfl (Nat.le_refl _) (.of_disarmed (hF.kept hf).fresh hdisarmed)
    fun _ _ => ⟨fun h => h, fun _ h => h⟩

theorem Queued.forget (hF : F.Queued) (id : Nat) : (F.forget id).Queued := by
  refine { hF with kept := fun {id' f} hf => ?_ }
  simp only [Futures.forget, Function.update_apply] at hf
  split at hf
  case isTrue => exact absurd hf nofun
  case isFalse hne =>
    refine (hF.kept hf).imp (Nat.le_refl _) .inl fun _ => Or.imp_right (And.imp_left fun hmem => ?_)
    exact mem_filter.mpr ⟨hmem, by simpa using hne⟩

theorem Step.queued (h : Step true back F F') (hF : F.Queued) : F'.Queued := by
  cases h with
  | allocate delay cancelOnTimeout initDeadline => exact hF.allocate _ _ _
  | attach timeoutMs cancelOnTimeout hf hrunning hstrict =>
    exact hF.attach _ _ hf hrunning (hstrict rfl).1 (hstrict rfl).2
  | settles h => exact hF.settles h
  | poll h => exact hF.advances (saturatingAdd_le _ _) h
  | sleep hf _ htick h => exact hF.advances ((hF.kept hf).deadline_le htick) h
  | @write id f g hf hdeadline _ hstrict =>
    refine hF.set hf (hdeadline.trans ?_)
    rcases hstrict rfl with hnone | hdecided | htask
    · exact hnone
    · exact (hF.kept hf).decided_disarmed hdecided
    · exact (hF.kept hf).task_disarmed htask
  | addTask hf hdecided => exact hF.addTask hf ((hF.kept hf).decided_disarmed hdecided)
  | dropTask index => exact { hF with
      task_fresh := fun id' hmem => hF.task_fresh id' (mem_of_mem_eraseIdx hmem)
      kept := fun hf => (hF.kept hf).imp (Nat.le_refl _)
        (fun hmem => .inl (mem_of_mem_eraseIdx hmem)) fun _ h => h }
  | forget id => exact hF.forget id

theorem Step.clock_le (h : Step true back F F') (hF : F.Queued) : F.clock ≤ F'.clock := by
  cases h with
  | settles h => exact Nat.le_of_eq h.clock_eq.symm
  | poll h =>
    rw [h.clock_eq]
    exact le_saturatingAdd _ hF.clock_le
  | sleep hf hrunning htick h =>
    rw [h.clock_eq]
    exact (hF.mem_queue hf hrunning htick).2
  | _ => exact Nat.le_refl _

theorem Steps.queued (h : Steps true back F F') (hF : F.Queued) :
    F'.Queued ∧ F.clock ≤ F'.clock := by
  induction h with
  | refl => exact ⟨hF, Nat.le_refl _⟩
  | tail _ hstep ih => exact ⟨hstep.queued ih.1, Nat.le_trans ih.2 (hstep.clock_le ih.1)⟩

/-! ### Late arrivals -/

end Futures

namespace ProcessRuntime

/-! ### The runtime is one of these transition systems -/

variable {id : Nat} {future : FutureRecord} {rt : ProcessRuntime}
  (futures : RuntimeTable FutureRecord) {rt' : ProcessRuntime}

variable (rt)

variable (futureId)

variable {futureId}

variable {rt}

end ProcessRuntime

/-! ### Runs -/

inductive FutureOp where
  | allocate (owner : Option Nat) (delayMs : Option Nat) (cancelOnTimeout : Bool)
      (context : Option Location) (initDeadlineTimeout : Bool)
  | attachDeadline (futureId timeoutMs : Nat) (cancelOnTimeout : Bool)
  | awaitReply (futureId : Nat)
  | reply (correlationId : Nat) (value : Value)
  | wait (pid : Nat) (reason : ProcessWaitReason)
  | resolve (futureId : Nat) (value : Value)
  | scheduleError (futureId : Nat) (kind : String) (args : List Value)
  | timeout (futureId : Nat)
  | processDown (futureId pid : Nat)
  | poll (elapsedMs : Nat)
  | sleep
  | suspendError (index waitingOn : Nat)
  | completeError (index : Nat) (outcome : Delivery)
  | startDelivery (futureId : Nat)
  | completeDelivery (futureId : Nat) (value : Value)
  | deliverResult (futureId : Nat) (outcome : Delivery)
  | cleanTask (ref : TaskRef) (failure : Option Delivery) (cancelled : Bool)
  | forget (futureId : Nat)

namespace FutureOp
variable (rt : ProcessRuntime)

/-- `allocate` is followed by the context and the flag its callers put in the
new record. -/
def apply : FutureOp → ProcessRuntime
  | allocate owner delayMs cancelOnTimeout context initDeadlineTimeout =>
    let (futureId, rt) := match delayMs with
      | some delayMs => rt.allocateFutureAfter owner delayMs cancelOnTimeout
      | none => rt.allocateFuture owner none cancelOnTimeout
    match rt.futures[futureId]? with
    | none => rt
    | some future =>
      { rt with
        futures := rt.futures.insert futureId
          { future with creationContext := context, initDeadlineTimeout } }
  | attachDeadline futureId timeoutMs cancelOnTimeout =>
    rt.attachFutureDeadline futureId rt.currentTickMs timeoutMs cancelOnTimeout
  | awaitReply futureId =>
    let (correlationId, rt) := rt.allocateCorrelationId
    rt.registerReplyWaiter correlationId futureId
  | reply correlationId value => (rt.resolveReply correlationId value).2
  | wait pid reason => rt.markProcessWaiting pid reason
  | resolve futureId value => (rt.resolveFuture futureId value).2
  | scheduleError futureId kind args => rt.scheduleFutureError futureId kind args
  | timeout futureId => rt.resolveFutureTimeout futureId
  | processDown futureId pid => rt.resolveFutureProcessDown futureId pid
  | poll elapsedMs => rt.pollRuntimeDeadlines elapsedMs
  | sleep => rt.sleepToNextDeadline
  | suspendError index waitingOn => rt.suspendErrorTask index waitingOn
  | completeError index outcome => rt.completeErrorTask index outcome
  | startDelivery futureId => { rt with deliveries := rt.deliveries ++ [futureId] }
  | completeDelivery futureId value => rt.completeDelivery futureId value
  | deliverResult futureId outcome => rt.deliverFutureOutcome futureId outcome
  | cleanTask ref failure cancelled => rt.cleanTask ref failure cancelled
  | forget futureId => rt.forgetInternalFuture futureId

def run (ops : List FutureOp) : ProcessRuntime := ops.foldl apply {}

variable {strict : Bool} {back : Nat → Prop} {F : Futures} {id : Nat}

end FutureOp

open FutureOp

end Surtr.Eldr.Runtime
