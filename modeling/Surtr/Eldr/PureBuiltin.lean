import Surtr.Lib.Slices
import Surtr.Eldr.MapValues

/-!
# Builtins resumed in batches
(`eldr/src/vm/continuation.rs`, `builtin/list_finish.rs`, `builtin/map_values.rs`)

Continuations that need nothing but time are resumed for as many transitions as the
budget allows.
-/

namespace Surtr.Eldr
open Surtr.Sindr Surtr.Lib SortedMapContinuation List

inductive PureContinuation where
  | listFinish (c : ListFinishContinuation)
  | sortedMap (c : SortedMapContinuation)
  | mapList (c : MapListContinuation)
  | mapFromEntries (c : MapFromEntriesContinuation)

inductive PureKind where
  | listFinish
  | sortedMap
  | mapList
  | mapFromEntries
  deriving DecidableEq

namespace PureContinuation

def kind : PureContinuation → PureKind
  | .listFinish _ => .listFinish
  | .sortedMap _ => .sortedMap
  | .mapList _ => .mapList
  | .mapFromEntries _ => .mapFromEntries

def continuation : PureContinuation → MapContinuation
  | .listFinish c => .listFinish c
  | .sortedMap c => .sortedMap c
  | .mapList c => .mapList c
  | .mapFromEntries c => .mapFromEntries c

def pending (c : PureContinuation) : MapOutcome := .ok (.resume (.host c.continuation))

/-- `BuiltinContinuation::resume` with the unit value; `alone` answers for the
segments of the list at this transition. -/
def resume (alone : Bool) : PureContinuation → MapOutcome
  | .listFinish c => c.resume .listFinish alone (.ok .unit)
  | .sortedMap c => c.resume (.ok .unit)
  | .mapList c => c.resume alone (.ok .unit)
  | .mapFromEntries c => c.resume (.ok .unit)

def resumeSteps (owners : List Bool) : PureContinuation → MapOutcome × Nat
  | .listFinish c => c.resumeSteps .listFinish owners
  | .sortedMap c => c.resumeSteps owners.length
  | .mapList c => c.resumeSteps owners
  | .mapFromEntries c => c.resumeSteps owners.length

end PureContinuation

def pureTask : MapOutcome → Option PureContinuation
  | .ok (.resume (.host (.listFinish c))) => some (.listFinish c)
  | .ok (.resume (.host (.sortedMap c))) => some (.sortedMap c)
  | .ok (.resume (.host (.mapList c))) => some (.mapList c)
  | .ok (.resume (.host (.mapFromEntries c))) => some (.mapFromEntries c)
  | _ => none

open PureContinuation

variable {outcome : MapOutcome} (c : PureContinuation)

theorem pureTask_pending : pureTask c.pending = some c := by
  cases c <;> rfl

theorem pending_of_pureTask {c : PureContinuation} (h : pureTask outcome = some c) :
    c.pending = outcome := by
  unfold pureTask at h
  split at h <;> cases h <;> rfl

def pureTurns : Turns Bool PureContinuation MapOutcome PureKind where
  turn := resume
  task := pureTask
  outcome := pending
  kind := kind
  task_outcome := pureTask_pending
  outcome_task := pending_of_pureTask

structure Budget where
  maxReductions : Nat
  reductions : Nat := 0

namespace Budget

def consume (b : Budget) (cost : Nat) : Budget :=
  { b with reductions := min (b.reductions + cost) (2 ^ 64 - 1) }

def expired (b : Budget) : Bool := decide (b.maxReductions ≤ b.reductions)

def remaining (b : Budget) : Nat := b.maxReductions - b.reductions

end Budget

/-- The part of an execution context that `resume_pure_builtin` reads. -/
structure PureContext where
  pending : Option MapOutcome
  cancelled : Bool := false

/-- `resume_pure_builtin`; `alone` answers for the segments at each transition. -/
def resumePureBuiltin (alone : Nat → Bool) (context : PureContext) (budget : Budget) :
    Bool × PureContext × Budget :=
  if budget.expired || context.cancelled then (false, context, budget)
  else match context.pending.bind pureTask with
    | none => (false, context, budget)
    | some c =>
      let (outcome, used) := c.resumeSteps ((List.range budget.remaining).map alone)
      (true, { context with pending := some outcome }, budget.consume used)

theorem resumeSteps_eq_batch (owners : List Bool) :
    c.resumeSteps owners = pureTurns.batch owners c := by
  refine pureTurns.batch_eq (fun c => by cases c <;> rfl) (fun alone owners c => ?_) owners c
  cases c with
  | listFinish c =>
    have hsteps : (listFinish c).resumeSteps (alone :: owners) =
        c.resumeSteps .listFinish (alone :: owners) := rfl
    have hturn : pureTurns.turn alone (.listFinish c) = (c.resumeSteps .listFinish [alone]).1 := rfl
    rw [hsteps, hturn]
    unfold ListFinishContinuation.resumeSteps
    rcases c.builder.resume alone with error | (list | builder)
    · exact .inr ⟨fun _ hpend => (by cases hpend), rfl⟩
    · exact .inr ⟨fun _ hpend => (by cases hpend), rfl⟩
    · exact .inl ⟨.listFinish { c with builder := builder }, rfl, rfl, rfl⟩
  | sortedMap c =>
    have hsteps : (sortedMap c).resumeSteps (alone :: owners) =
        c.resumeSteps (owners.length + 1) := rfl
    have hturn : pureTurns.turn alone (.sortedMap c) = (c.resumeSteps 1).1 := rfl
    rw [hsteps, hturn]
    unfold SortedMapContinuation.resumeSteps
    rcases c.step with error | ⟨_ | _, next⟩
    · exact .inr ⟨fun _ hpend => (by cases hpend), rfl⟩
    · exact .inl ⟨.sortedMap next, rfl, rfl, rfl⟩
    · refine .inr ⟨fun s' hpend hkind => ?_, rfl⟩
      cases s' with
      | sortedMap later => exact sorted_ne_pending _ _ later hpend
      | listFinish | mapFromEntries | mapList => cases hkind
  | mapList c =>
    have hsteps : (mapList c).resumeSteps (alone :: owners) =
        c.resumeSteps (alone :: owners) := rfl
    rw [hsteps]
    unfold MapListContinuation.resumeSteps
    split
    · rename_i next hnext
      exact .inl ⟨.mapList next, hnext, rfl, rfl⟩
    · rename_i hother
      refine .inr ⟨fun s' hpend hkind => ?_, rfl⟩
      cases s' with
      | mapList next => exact hother next hpend
      | listFinish | sortedMap | mapFromEntries => cases hkind
  | mapFromEntries c =>
    have hsteps : (mapFromEntries c).resumeSteps (alone :: owners) =
        c.resumeSteps (owners.length + 1) := rfl
    rw [hsteps]
    unfold MapFromEntriesContinuation.resumeSteps
    split
    · rename_i next hnext
      exact .inl ⟨.mapFromEntries next, hnext, rfl, rfl⟩
    · rename_i hother
      refine .inr ⟨fun s' hpend hkind => ?_, rfl⟩
      cases s' with
      | mapFromEntries next => exact hother next hpend
      | listFinish | sortedMap | mapList => cases hkind

def Ends (outcome final : MapOutcome) : Prop := ∃ n, pureTurns.EndsWith outcome final n

theorem ends_of_not_pure (h : pureTask outcome = none) : Ends outcome outcome :=
  ⟨0, .done h⟩

theorem ends_pending {c : PureContinuation} {final : MapOutcome}
    (h : ∀ alone, Ends (c.resume alone) final) : Ends c.pending final := by
  obtain ⟨shared, hshared⟩ := h false
  obtain ⟨owned, howned⟩ := h true
  refine ⟨max shared owned + 1, Turns.EndsWith.turn howned.ended fun alone => ?_⟩
  cases alone with
  | false => exact hshared.mono (Nat.le_max_left _ _)
  | true => exact howned.mono (Nat.le_max_right _ _)

theorem ends_resume {c : PureContinuation} {final : MapOutcome} (h : Ends c.pending final)
    (alone : Bool) : Ends (c.resume alone) final := by
  obtain ⟨n, hn⟩ := h
  exact ⟨n, hn.of_turn alone⟩

theorem listFinish_ends (c : ListFinishContinuation) : Ends (listFinish c).pending
      (.ok (.complete (ListFinishContinuation.result c.builder.items c.rest))) := by
  induction hwork : c.builder.work using Nat.strongRecOn generalizing c with
  | ind work ih =>
    refine ends_pending fun alone => ?_
    change Ends (c.resumeSteps .listFinish [alone]).1 _
    rcases c.resumeSteps_spec MapContinuation.listFinish [alone] with
      hdone | ⟨next, hnext, hits, hrest, hless⟩
    · rw [hdone]
      exact ends_of_not_pure rfl
    rw [length_singleton] at hless
    rw [hnext, ← hits, ← hrest]
    exact ih next.builder.work (by omega) next rfl

theorem finishList_ends (alone : Bool) (builder : ListBuilder) (rest : Option Value) :
    Ends (finishList .listFinish alone builder rest)
      (.ok (.complete (ListFinishContinuation.result builder.items rest))) := by
  rw [← builder.finish_items]
  exact ends_resume (listFinish_ends ⟨builder.finish, rest⟩) alone

theorem mapList_ends (c : MapListContinuation) (hroom : c.items.length ≤ usizeMax) :
    Ends (mapList c).pending (.ok (.complete (.list c.items))) := by
  induction hlen : c.remaining.length using Nat.strongRecOn generalizing c with
  | ind len ih =>
    refine ends_pending fun alone => ?_
    change Ends (c.resume alone (.ok .unit)) _
    rcases MapListContinuation.resume_spec alone .unit hroom with
      ⟨hfin, hits⟩ | ⟨next, hnext, hits, hless⟩
    · rw [hfin, ← hits]
      exact finishList_ends alone c.output none
    · rw [hnext, ← hits]
      exact ih next.remaining.length (by omega) next (hits ▸ hroom) rfl

theorem mapFromEntries_resume_spec (c : MapFromEntriesContinuation) :
    pureTask (c.resume (.ok .unit)) = none ∨
      ∃ next, c.resume (.ok .unit) = (mapFromEntries next).pending ∧
        next.remaining.length < c.remaining.length := by
  obtain ⟨remaining, index, output⟩ := c
  unfold MapFromEntriesContinuation.resume
  dsimp only [bind, Except.bind]
  split
  · exact .inl rfl
  · split
    · exact .inl rfl
    · exact .inr ⟨_, rfl, Nat.lt_succ_self _⟩
  · exact .inl rfl
  · exact .inl rfl
  · exact .inl rfl

theorem mapFromEntries_ends (c : MapFromEntriesContinuation) :
    ∃ final, Ends (mapFromEntries c).pending final := by
  induction hlen : c.remaining.length using Nat.strongRecOn generalizing c with
  | ind len ih =>
    -- the transition does not look at the segments of a list
    suffices h : ∃ final, Ends (c.resume (.ok .unit)) final by
      obtain ⟨final, hfinal⟩ := h
      exact ⟨final, ends_pending fun _ => hfinal⟩
    rcases mapFromEntries_resume_spec c with hnone | ⟨next, hnext, hless⟩
    · exact ⟨_, ends_of_not_pure hnone⟩
    · rw [hnext]
      exact ih next.remaining.length (by omega) next rfl

theorem sorted_ends (map : HashMapHandle) (action : SortedAction) :
    ∃ final, Ends (sorted map.sortedEntries action) final := by
  have hlist : ∀ keys, ∃ final, Ends
      (MapListContinuation.resume true ⟨map.sortedEntries, keys, .empty⟩ (.ok .unit)) final := by
    intro keys
    have hroom :
        (MapListContinuation.items ⟨map.sortedEntries, keys, .empty⟩).length ≤ usizeMax := by
      rw [MapListContinuation.items, length_append, length_map]
      exact (Nat.zero_add _).trans_le map.length_sortedEntries_le
    exact ⟨_, ends_resume (mapList_ends _ hroom) true⟩
  cases action with
  | keys => exact hlist true
  | values => exact hlist false
  | callback mapper =>
    refine ⟨_, ends_of_not_pure ?_⟩
    cases map.sortedEntries with
    | nil => rfl
    | cons => rfl

theorem sortedMap_ends {map : HashMapHandle} {order : List (String × Value)}
    (horder : order.Perm map.entries) (c : SortedMapContinuation) (h : Sorting order c) :
    ∃ final, Ends (sortedMap c).pending final := by
  induction hwork : c.work using Nat.strongRecOn generalizing c with
  | ind work ih =>
    suffices hone : ∃ final, Ends (c.resumeSteps 1).1 final by
      obtain ⟨final, hfinal⟩ := hone
      exact ⟨final, ends_pending fun _ => hfinal⟩
    rcases resumeSteps_spec horder 1 h with
      hdone | ⟨next, hnext, hnext', -, hless⟩
    · rw [hdone]
      exact sorted_ends map c.action
    · rw [hnext]
      exact ih next.work (by omega) next hnext' rfl

theorem start_ends {map : HashMapHandle} {order : List (String × Value)}
    (horder : order.Perm map.entries) (action : SortedAction) :
    ∃ final, Ends (start order action) final := by
  unfold start
  split
  · rename_i hshort
    rw [sorted_singleton horder hshort]
    exact sorted_ends map action
  · exact sortedMap_ends horder _ (sorting_initial order action)

/-- The outcomes the engine can have in its hands. -/
inductive Reachable : MapOutcome → Prop where
  | mapValues {map : HashMapHandle} (horder : Perm order map.entries) (mapper : Value) :
      Reachable (builtinMapValues (.hashMap order) mapper)
  | mapKeys {map : HashMapHandle} (horder : Perm order map.entries) :
      Reachable (builtinMapKeys (.hashMap order))
  | mapValuesList {map : HashMapHandle} (horder : Perm order map.entries) :
      Reachable (builtinMapValuesList (.hashMap order))
  | mapFromEntries (entries : Value) : Reachable (builtinMapFromEntries entries)
  | finishList (alone : Bool) (builder : ListBuilder) (rest : Option Value) :
      Reachable (finishList .listFinish alone builder rest)
  | resume {c : PureContinuation} (alone : Bool) : Reachable c.pending → Reachable (c.resume alone)

theorem Reachable.ends (h : Reachable outcome) : ∃ final, Ends outcome final := by
  induction h with
  | mapValues horder mapper =>
    cases mapper with
    | callable mapper => exact start_ends horder _
    | _ => exact ⟨_, ends_of_not_pure rfl⟩
  | mapKeys horder | mapValuesList horder => exact start_ends horder _
  | mapFromEntries entries =>
    cases entries with
    | list remaining =>
      obtain ⟨final, hfinal⟩ := mapFromEntries_ends ⟨remaining, 0, []⟩
      exact ⟨final, ends_resume hfinal true⟩
    | _ => exact ⟨_, ends_of_not_pure rfl⟩
  | finishList alone builder rest => exact ⟨_, finishList_ends alone builder rest⟩
  | resume alone _ ih =>
    obtain ⟨final, hfinal⟩ := ih
    exact ⟨final, ends_resume hfinal alone⟩

theorem resumeSteps_single (owners : List Bool) :
    pureTurns.single (owners.take (c.resumeSteps owners).2) c.pending = c.resumeSteps owners ∧
      (c.resumeSteps owners).2 ≤ owners.length ∧
      ((c.resumeSteps owners).2 < owners.length → ∀ next,
        pureTask (c.resumeSteps owners).1 = some next → next.kind ≠ c.kind) := by
  rw [resumeSteps_eq_batch]
  exact ⟨pureTurns.single_take_batch owners c, pureTurns.batch_le owners c,
    fun hshort next htask => pureTurns.batch_short hshort htask⟩

theorem resumePureBuiltin_eq (alone : Nat → Bool) (c : PureContinuation) {budget : Budget}
    (hfits : budget.maxReductions < 2 ^ 64) (hleft : budget.reductions < budget.maxReductions) :
    ∃ used ≤ budget.remaining, resumePureBuiltin alone { pending := some c.pending } budget = (true,
          { pending := some (pureTurns.single ((List.range used).map alone) c.pending).1 },
          { budget with reductions := budget.reductions + used }) ∧
      (pureTurns.single ((List.range used).map alone) c.pending).2 = used := by
  obtain ⟨hsingle, hle, -⟩ := resumeSteps_single c ((List.range budget.remaining).map alone)
  have hlength : ((List.range budget.remaining).map alone).length = budget.remaining := by
    rw [length_map, length_range]
  rw [hlength] at hle
  rw [← map_take, take_range, Nat.min_eq_left hle] at hsingle
  have hexpired : budget.expired = false := decide_eq_false (Nat.not_le.mpr hleft)
  refine ⟨_, hle, ?_, by rw [hsingle]⟩
  unfold resumePureBuiltin
  rw [hexpired, hsingle]
  simp only [Bool.or_self, Bool.false_eq_true, if_false, Option.bind_some, pureTask_pending]
  have hcost : min (budget.reductions +
      (c.resumeSteps ((List.range budget.remaining).map alone)).2) (2 ^ 64 - 1) =
      budget.reductions + (c.resumeSteps ((List.range budget.remaining).map alone)).2 := by
    unfold Budget.remaining at hle ⊢
    omega
  rw [Budget.consume, hcost]

/-- A batch is the single transitions it is made of, with the same outcome and
cost; and from a reachable state every way to split a sufficient budget comes to
the same end. -/
theorem batched_resumption_eq_single_steps (c : PureContinuation) : (∀ owners : List Bool,
      pureTurns.single (owners.take (c.resumeSteps owners).2) c.pending = c.resumeSteps owners ∧
      (c.resumeSteps owners).2 ≤ owners.length ∧
      ((c.resumeSteps owners).2 < owners.length → ∀ next,
        pureTask (c.resumeSteps owners).1 = some next → next.kind ≠ c.kind)) ∧
    (∀ (alone : Nat → Bool) (budget : Budget), budget.maxReductions < 2 ^ 64 →
      budget.reductions < budget.maxReductions →
      ∃ used ≤ budget.remaining, resumePureBuiltin alone { pending := some c.pending } budget =
          (true, { pending := some (pureTurns.single ((List.range used).map alone) c.pending).1 },
            { budget with reductions := budget.reductions + used }) ∧
        (pureTurns.single ((List.range used).map alone) c.pending).2 = used) ∧
    (∀ slices : List (List Bool),
      pureTurns.slices slices c.pending = pureTurns.single slices.flatten c.pending) ∧
    (Reachable c.pending → ∃ final n, pureTask final = none ∧ ∀ slices : List (List Bool),
      n ≤ slices.flatten.length → (pureTurns.slices slices c.pending).1 = final) := by
  refine ⟨resumeSteps_single c, fun alone budget hfits hleft =>
    resumePureBuiltin_eq alone c hfits hleft, fun slices => pureTurns.slices_eq_single slices _,
    fun h => ?_⟩
  obtain ⟨final, n, hends⟩ := h.ends
  exact ⟨final, n, hends.ended, fun slices hlen => hends.slices hlen⟩

def oneEntryLeft : PureContinuation :=
  .mapFromEntries ⟨[.tuple [.str "b", .unit]], 1, [("a", .unit)]⟩

theorem oneEntryLeft_reachable : Reachable oneEntryLeft.pending :=
  .mapFromEntries (.list [.tuple [.str "a", .unit], .tuple [.str "b", .unit]])

theorem oneEntryLeft_splits : ∃ final n, pureTask final = none ∧ ∀ slices : List (List Bool),
      n ≤ slices.flatten.length → (pureTurns.slices slices oneEntryLeft.pending).1 = final :=
  (batched_resumption_eq_single_steps oneEntryLeft).2.2.2 oneEntryLeft_reachable

end Surtr.Eldr
