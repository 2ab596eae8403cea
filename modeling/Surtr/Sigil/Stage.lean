import Mathlib.Algebra.Order.Ring.Nat
import Surtr.Sigil.Rebase

/-!
# Resolving the modules of a stage (`sigil/src/resolver/mod.rs`)

`resolveInTurn` is the sequential reading: one counter runs through all modules.
The resolver of a module is a function of the counter it starts from.
-/

namespace Surtr.Sigil
open List

structure ResolveError where
  message : String
deriving DecidableEq, Repr

structure StagedModule where
  /-- `next_id` of the scope `build_module_scope_with_imports` builds. -/
  moduleScope : Except ResolveError Nat
  /-- The resolved program and the scope's `next_id` after it. -/
  resolveProgram : Nat → Except ResolveError (List Resolved × Nat)

structure StageModuleResolveResult where
  resolved : List Resolved
  localIdCount : Nat

def maxStageWorkers : Nat := 8

def advanceNextIdTo (scope nextId : Nat) : Nat :=
  if scope < nextId then nextId else scope

def resolveModule (stageLocalBase : Nat) (module : StagedModule) :
    Except ResolveError StageModuleResolveResult :=
  match module.moduleScope with
  | .error e => .error e
  | .ok scope =>
    match module.resolveProgram (advanceNextIdTo scope stageLocalBase) with
    | .error e => .error e
    | .ok (resolved, nextId) => .ok { resolved, localIdCount := nextId - stageLocalBase }

def chunks {α : Type} (size : Nat) : (fuel : Nat) → List α → List (List α)
  | 0, _ => []
  | _, [] => []
  | fuel + 1, a :: as => (a :: as).take size :: chunks size fuel ((a :: as).drop size)

def resolveStageModulesParallel (stage : List StagedModule) (stageLocalBase : Nat) :
    List (Except ResolveError StageModuleResolveResult) :=
  (chunks maxStageWorkers stage.length stage).flatMap fun batch =>
    batch.map (resolveModule stageLocalBase)

/-- The merge loop; the trees are kept apart by module. The second component is the
`next_local_id` of the next stage. -/
def mergeStageResults (stageLocalBase : Nat) :
    (offset : Nat) → List (Except ResolveError StageModuleResolveResult) →
      Except ResolveError (List (List Resolved) × Nat)
  | offset, [] => .ok ([], saturatingAdd stageLocalBase offset)
  | _, .error e :: _ => .error e
  | offset, .ok result :: results =>
    match mergeStageResults stageLocalBase (saturatingAdd offset result.localIdCount) results with
    | .error e => .error e
    | .ok (trees, nextLocalId) =>
      .ok (rebaseResolvedNodes stageLocalBase offset result.resolved :: trees, nextLocalId)

def resolveStage (stageLocalBase : Nat) (stage : List StagedModule) :
    Except ResolveError (List (List Resolved) × Nat) :=
  mergeStageResults stageLocalBase 0 (resolveStageModulesParallel stage stageLocalBase)

def resolveInTurn : (nextId : Nat) → List StagedModule →
    Except ResolveError (List (List Resolved) × Nat)
  | nextId, [] => .ok ([], nextId)
  | nextId, module :: stage =>
    match module.moduleScope with
    | .error e => .error e
    | .ok scope =>
      match module.resolveProgram (advanceNextIdTo scope nextId) with
      | .error e => .error e
      | .ok (resolved, nextId) =>
        match resolveInTurn nextId stage with
        | .error e => .error e
        | .ok (trees, nextId) => .ok (resolved :: trees, nextId)

/-- Root ids of builtin types, taken from the top of the range (expr.rs:97-105). -/
def isSyntheticBuiltinSymbolUid (uid : Nat) : Bool :=
  u32Max - 15 ≤ uid && uid ≤ u32Max - 7

/-- The local ids of a module, those from `base` up to `nextId`, moved up. -/
def renumber (base nextId offset uid : Nat) : Nat :=
  if base ≤ uid ∧ uid < nextId then uid + offset else uid

/-- Started later, the resolver of a module does the same with later ids. -/
structure StagedModule.Uniform (base : Nat) (module : StagedModule) : Prop where
  scope_le : ∀ scope, module.moduleScope = .ok scope → scope ≤ base
  nextId_le : ∀ resolved nextId, module.resolveProgram base = .ok (resolved, nextId) → base ≤ nextId
  uid_lt : ∀ resolved nextId, module.resolveProgram base = .ok (resolved, nextId) →
    ∀ o ∈ nodesOccurrences resolved, o.uniqueId < nextId ∨ isSyntheticBuiltinSymbolUid o.uniqueId
  later_ok : ∀ resolved nextId, module.resolveProgram base = .ok (resolved, nextId) →
    ∀ offset, module.resolveProgram (base + offset) =
      .ok (renameNodes (renumber base nextId offset) resolved, nextId + offset)
  later_error : ∀ e, module.resolveProgram base = .error e →
    ∀ offset, module.resolveProgram (base + offset) = .error e

def resolvedAlone (base : Nat) (module : StagedModule) : List Resolved × Nat :=
  match module.resolveProgram base with
  | .error _ => ([], base)
  | .ok result => result

def StagedModule.treeAt (base offset : Nat) (module : StagedModule) : List Resolved :=
  renameNodes (renumber base (resolvedAlone base module).2 offset) (resolvedAlone base module).1

def localIdCount (base : Nat) (module : StagedModule) : Nat :=
  (resolvedAlone base module).2 - base

def localIdCounts (base : Nat) (stage : List StagedModule) : Nat :=
  (stage.map (localIdCount base)).sum

/-- Where the traversal goes it meets no synthetic id, where it does not go stands no
local id. -/
def Occurrence.Kept (base nextId : Nat) (o : Occurrence) : Prop :=
  if o.rebased then o.uniqueId < nextId else o.uniqueId < base ∨ nextId ≤ o.uniqueId

instance (base nextId : Nat) (o : Occurrence) : Decidable (o.Kept base nextId) :=
  inferInstanceAs (Decidable
    (if o.rebased then o.uniqueId < nextId else o.uniqueId < base ∨ nextId ≤ o.uniqueId))

/-- `offset` local ids stand before the stage's first module. -/
def ReachesLocals (base : Nat) : (offset : Nat) → List StagedModule → Prop
  | _, [] => True
  | offset, module :: stage =>
    (offset ≠ 0 → ∀ o ∈ nodesOccurrences (resolvedAlone base module).1,
      o.Kept base (resolvedAlone base module).2) ∧
    ReachesLocals base (offset + localIdCount base module) stage

def AllResolve (base : Nat) (stage : List StagedModule) : Prop :=
  ∀ module ∈ stage, ∃ scope result,
    module.moduleScope = .ok scope ∧ module.resolveProgram base = .ok result

/-- Each tree is the module's own tree with its ids renumbered; binders stay apart
within a module and local ids between modules, and declared ids are not touched. -/
structure NumberedInTurn (base : Nat) (stage : List StagedModule) (trees : List (List Resolved)) :
    Prop where
  length_eq : trees.length = stage.length
  tree : ∀ before module after, stage = before ++ module :: after →
    trees[before.length]? = some (renameNodes
      (renumber base (resolvedAlone base module).2 (localIdCounts base before))
      (resolvedAlone base module).1)
  declared : ∀ nextId offset uid, uid < base → renumber base nextId offset uid = uid
  binder : ∀ nextId offset uid uid', uid < nextId → uid' < nextId →
    renumber base nextId offset uid = renumber base nextId offset uid' → uid = uid'
  disjoint : ∀ before module between module' after,
    stage = before ++ module :: (between ++ module' :: after) →
    ∀ uid uid', base ≤ uid → uid < (resolvedAlone base module).2 →
      base ≤ uid' → uid' < (resolvedAlone base module').2 →
      renumber base (resolvedAlone base module).2 (localIdCounts base before) uid <
        renumber base (resolvedAlone base module').2
          (localIdCounts base (before ++ module :: between)) uid'

theorem chunks_flatten {α : Type} (size : Nat) (hsize : 0 < size) (fuel : Nat) (as : List α)
    (hfuel : as.length ≤ fuel) : (chunks size fuel as).flatten = as := by
  induction fuel generalizing as with
  | zero =>
    have has : as = [] := length_eq_zero_iff.mp (Nat.le_zero.mp hfuel)
    simp [chunks, has]
  | succ fuel ih =>
    cases as with
    | nil => simp [chunks]
    | cons a as =>
      have hdrop : ((a :: as).drop size).length ≤ fuel := by
        simp only [length_drop, length_cons] at hfuel ⊢
        omega
      rw [chunks, flatten_cons, ih _ hdrop, take_append_drop]

theorem resolveStageModulesParallel_eq (stage : List StagedModule) (base : Nat) :
    resolveStageModulesParallel stage base = stage.map (resolveModule base) := by
  have hflat := chunks_flatten maxStageWorkers (by decide) stage.length stage
    (Nat.le_refl _)
  rw [resolveStageModulesParallel, flatMap_def, ← map_flatten, hflat]

section
variable {base : Nat} {module : StagedModule} {stage : List StagedModule}

theorem renumber_zero (nextId uid : Nat) : renumber base nextId 0 uid = uid := by
  simp [renumber]

theorem kept_iff_agrees {nextId offset : Nat} {o : Occurrence} (hbase : base ≤ nextId)
    (hoffset : offset ≠ 0) (hfits : nextId + offset ≤ u32Max)
    (huid : o.uniqueId < nextId ∨ isSyntheticBuiltinSymbolUid o.uniqueId) :
    o.Agrees (rebaseUid base offset) (renumber base nextId offset) ↔ o.Kept base nextId := by
  obtain ⟨uid, rebased⟩ := o
  simp only [isSyntheticBuiltinSymbolUid, Bool.and_eq_true, decide_eq_true_eq] at huid
  simp only [Occurrence.Agrees, Occurrence.Kept, rebaseUid, renumber, saturatingAdd]
  cases rebased <;> simp only [Bool.false_eq_true, if_false, if_true]
  · split <;> omega
  · have hmax : u32Max = 4294967295 := rfl
    split <;> split <;> omega

theorem StagedModule.Uniform.alone_le (h : module.Uniform base) :
    base ≤ (resolvedAlone base module).2 := by
  rw [resolvedAlone]
  split
  case h_1 => exact Nat.le_refl _
  case h_2 result hres => exact h.nextId_le result.1 result.2 hres

theorem StagedModule.Uniform.alone_uid (h : module.Uniform base) :
    ∀ o ∈ nodesOccurrences (resolvedAlone base module).1,
      o.uniqueId < (resolvedAlone base module).2 ∨ isSyntheticBuiltinSymbolUid o.uniqueId := by
  rw [resolvedAlone]
  split
  case h_1 => simp [nodesOccurrences]
  case h_2 result hres => exact h.uid_lt result.1 result.2 hres

theorem rebaseResolvedNodes_eq_iff {offset : Nat}
    (h : module.Uniform base) (hfits : (resolvedAlone base module).2 + offset ≤ u32Max) :
    rebaseResolvedNodes base offset (resolvedAlone base module).1 = module.treeAt base offset ↔
      (offset ≠ 0 → ∀ o ∈ nodesOccurrences (resolvedAlone base module).1,
        o.Kept base (resolvedAlone base module).2) := by
  rw [rebaseResolvedNodes, StagedModule.treeAt]
  split
  case isTrue hoffset =>
    have hsame : AllAgree id (renumber base (resolvedAlone base module).2 offset)
        (nodesOccurrences (resolvedAlone base module).1) := by
      intro o _
      simp [Occurrence.Agrees, hoffset, renumber_zero]
    exact iff_of_true ((rebaseNodes_traversed base offset _).1.mpr hsame) (absurd hoffset)
  case isFalse hoffset =>
    rw [(rebaseNodes_traversed base offset _).2]
    constructor
    · intro hagree _ o ho
      exact (kept_iff_agrees h.alone_le hoffset hfits (h.alone_uid o ho)).mp (hagree o ho)
    · intro hkept o ho
      exact (kept_iff_agrees h.alone_le hoffset hfits (h.alone_uid o ho)).mpr (hkept hoffset o ho)

/-! Both readings, module by module, when every module resolves. -/

def numberedTrees (base : Nat) : (offset : Nat) → List StagedModule → List (List Resolved)
  | _, [] => []
  | offset, module :: stage =>
    module.treeAt base offset ::
      numberedTrees base (offset + localIdCount base module) stage

def rebasedTrees (base : Nat) : (offset : Nat) → List StagedModule → List (List Resolved)
  | _, [] => []
  | offset, module :: stage =>
    rebaseResolvedNodes base offset (resolvedAlone base module).1 ::
      rebasedTrees base (offset + localIdCount base module) stage

theorem advanceNextIdTo_eq {scope nextId : Nat} (h : scope ≤ nextId) :
    advanceNextIdTo scope nextId = nextId := by
  rw [advanceNextIdTo]
  split <;> omega

theorem localIdCounts_cons (module : StagedModule) (stage : List StagedModule) :
    localIdCounts base (module :: stage) = localIdCount base module + localIdCounts base stage := by
  simp [localIdCounts]

theorem resolveProgram_later {result : List Resolved × Nat}
    (h : module.Uniform base) (hok : module.resolveProgram base = .ok result) (offset : Nat) :
    module.resolveProgram (base + offset) =
      .ok (module.treeAt base offset, base + (offset + localIdCount base module)) := by
  have halone : resolvedAlone base module = result := by
    simp [resolvedAlone, hok]
  have hle := h.alone_le
  rw [h.later_ok result.1 result.2 hok offset, StagedModule.treeAt, localIdCount, halone]
  rw [halone] at hle
  congr 2
  omega

section
variable (hall : AllResolve base stage) (hlaws : ∀ module ∈ stage, module.Uniform base)
  (offset : Nat)
include hall hlaws offset

theorem resolveInTurn_eq : resolveInTurn (base + offset) stage =
      .ok (numberedTrees base offset stage, base + (offset + localIdCounts base stage)) := by
  induction stage generalizing offset with
  | nil => simp [resolveInTurn, numberedTrees, localIdCounts]
  | cons module stage ih =>
    obtain ⟨hlaw, hlaws⟩ := forall_mem_cons.mp hlaws
    obtain ⟨⟨scope, result, hscope, hok⟩, hall⟩ := forall_mem_cons.mp hall
    have hstart : scope ≤ base + offset := Nat.le_add_right_of_le (hlaw.scope_le scope hscope)
    simp only [resolveInTurn, hscope, advanceNextIdTo_eq hstart, resolveProgram_later hlaw hok,
      ih hall hlaws, numberedTrees, localIdCounts_cons, Nat.add_assoc]

theorem mergeStageResults_eq (hfits : base + (offset + localIdCounts base stage) ≤ u32Max) :
    mergeStageResults base offset (stage.map (resolveModule base)) =
      .ok (rebasedTrees base offset stage, base + (offset + localIdCounts base stage)) := by
  induction stage generalizing offset with
  | nil =>
    have hnext : saturatingAdd base offset = base + offset := Nat.min_eq_left hfits
    simp [mergeStageResults, rebasedTrees, localIdCounts, hnext]
  | cons module stage ih =>
    obtain ⟨hlaw, hlaws⟩ := forall_mem_cons.mp hlaws
    obtain ⟨⟨scope, result, hscope, hok⟩, hall⟩ := forall_mem_cons.mp hall
    rw [localIdCounts_cons] at hfits ⊢
    have halone : resolvedAlone base module = result := by
      simp [resolvedAlone, hok]
    have hmodule : resolveModule base module =
        .ok ⟨(resolvedAlone base module).1, localIdCount base module⟩ := by
      simp only [resolveModule, hscope, advanceNextIdTo_eq (hlaw.scope_le scope hscope), hok,
        localIdCount, halone]
    have hoffset : saturatingAdd offset (localIdCount base module) =
        offset + localIdCount base module := Nat.min_eq_left (by omega)
    simp only [map_cons, hmodule, mergeStageResults, hoffset,
      ih hall hlaws (offset + localIdCount base module) (by omega), rebasedTrees, Nat.add_assoc]

end

theorem rebasedTrees_eq_iff (hlaws : ∀ module ∈ stage, module.Uniform base) (offset : Nat)
    (hfits : base + (offset + localIdCounts base stage) ≤ u32Max) :
    rebasedTrees base offset stage = numberedTrees base offset stage ↔
      ReachesLocals base offset stage := by
  induction stage generalizing offset with
  | nil => simp [rebasedTrees, numberedTrees, ReachesLocals]
  | cons module stage ih =>
    obtain ⟨hlaw, hlaws⟩ := forall_mem_cons.mp hlaws
    rw [localIdCounts_cons] at hfits
    have hle := hlaw.alone_le
    have hmodule : (resolvedAlone base module).2 + offset ≤ u32Max := by
      rw [localIdCount] at hfits
      omega
    rw [rebasedTrees, numberedTrees, ReachesLocals, List.cons.injEq,
      rebaseResolvedNodes_eq_iff hlaw hmodule, ih hlaws _ (by omega)]

theorem resolve_errors (hnot : ¬ AllResolve base stage)
    (hlaws : ∀ module ∈ stage, module.Uniform base) (offset shift : Nat) :
    ∃ e, resolveInTurn (base + offset) stage = .error e ∧
      mergeStageResults base shift (stage.map (resolveModule base)) = .error e := by
  induction stage generalizing offset shift with
  | nil => exact absurd (fun _ h => absurd h not_mem_nil) hnot
  | cons module stage ih =>
    obtain ⟨hlaw, hlaws⟩ := forall_mem_cons.mp hlaws
    cases hscope : module.moduleScope with
    | error e => exact ⟨e, by simp [resolveInTurn, hscope],
        by simp [mergeStageResults, resolveModule, hscope]⟩
    | ok scope =>
      have hle := hlaw.scope_le scope hscope
      have hstart : advanceNextIdTo scope base = base := advanceNextIdTo_eq hle
      have hlater : advanceNextIdTo scope (base + offset) = base + offset :=
        advanceNextIdTo_eq (by omega)
      cases hok : module.resolveProgram base with
      | error e =>
        have hsame := hlaw.later_error e hok offset
        exact ⟨e, by simp [resolveInTurn, hscope, hlater, hsame],
          by simp [mergeStageResults, resolveModule, hscope, hstart, hok]⟩
      | ok result =>
        have hrest : ¬ AllResolve base stage := fun hall =>
          hnot (forall_mem_cons.mpr ⟨⟨scope, result, hscope, hok⟩, hall⟩)
        obtain ⟨e, hturn, hmerge⟩ := ih hrest hlaws (offset + localIdCount base module)
          (saturatingAdd shift (result.2 - base))
        refine ⟨e, ?_, ?_⟩
        · simp only [resolveInTurn, hscope, hlater, resolveProgram_later hlaw hok, hturn]
        · simp only [map_cons, mergeStageResults, resolveModule, hscope, hstart, hok, hmerge]

theorem numberedTrees_length (offset : Nat) (stage : List StagedModule) :
    (numberedTrees base offset stage).length = stage.length := by
  induction stage generalizing offset with
  | nil => rfl
  | cons module stage ih => simp [numberedTrees, ih]

theorem numberedTrees_getElem? (offset : Nat) (before : List StagedModule) (module : StagedModule)
    (after : List StagedModule) :
    (numberedTrees base offset (before ++ module :: after))[before.length]? =
      some (module.treeAt base (offset + localIdCounts base before)) := by
  induction before generalizing offset with
  | nil => simp [numberedTrees, localIdCounts]
  | cons first before ih =>
    rw [cons_append, numberedTrees, length_cons, getElem?_cons_succ, ih,
      localIdCounts_cons, Nat.add_assoc]

theorem numberedTrees_numberedInTurn (stage : List StagedModule) :
    NumberedInTurn base stage (numberedTrees base 0 stage) where
  length_eq := numberedTrees_length 0 stage
  tree before module after hstage := by
    rw [hstage, numberedTrees_getElem?, Nat.zero_add]
    rfl
  declared nextId offset uid huid := by
    rw [renumber]
    split <;> omega
  binder nextId offset uid uid' huid huid' heq := by
    rw [renumber, renumber] at heq
    split at heq <;> split at heq <;> omega
  disjoint before module between module' after hstage uid uid' hbase hlt hbase' hlt' := by
    rw [renumber, renumber, if_pos ⟨hbase, hlt⟩, if_pos ⟨hbase', hlt'⟩]
    simp only [localIdCounts, map_append, map_cons, sum_append, sum_cons, localIdCount]
    omega

end

/-- The merged stage is the stage resolved in turn, errors included, exactly
when the traversal reaches every local id of the modules that are shifted and
meets no synthetic id there. -/
theorem stage_merge_iff_reaches_locals (base : Nat) (stage : List StagedModule)
    (hlaws : ∀ module ∈ stage, module.Uniform base)
    (hfits : base + localIdCounts base stage ≤ u32Max) :
    (resolveStage base stage = resolveInTurn base stage ↔
      (AllResolve base stage → ReachesLocals base 0 stage)) ∧
    ∀ trees nextLocalId, resolveStage base stage = .ok (trees, nextLocalId) →
      ReachesLocals base 0 stage →
      NumberedInTurn base stage trees ∧ nextLocalId = base + localIdCounts base stage := by
  have hfits' : base + (0 + localIdCounts base stage) ≤ u32Max := by omega
  rw [resolveStage, resolveStageModulesParallel_eq]
  by_cases hall : AllResolve base stage
  · have hturn := resolveInTurn_eq hall hlaws 0
    have htrees := rebasedTrees_eq_iff hlaws 0 hfits'
    rw [Nat.add_zero] at hturn
    rw [hturn, mergeStageResults_eq hall hlaws 0 hfits', Nat.zero_add]
    refine ⟨?_, ?_⟩
    · rw [Except.ok.injEq, Prod.mk.injEq, htrees]
      simp [hall]
    intro trees nextLocalId hres hreaches
    rw [htrees.mpr hreaches] at hres
    cases hres
    exact ⟨numberedTrees_numberedInTurn stage, rfl⟩
  · obtain ⟨e, hturn, hmerge⟩ := resolve_errors hall hlaws 0 0
    rw [Nat.add_zero] at hturn
    rw [hturn, hmerge]
    refine ⟨iff_of_true rfl (absurd · hall), ?_⟩
    intro trees nextLocalId hres
    cases hres

def localId (name : String) (uniqueId : Nat) : ResolvedId :=
  { name, qualifiedName := none, uniqueId, compilerGenerated := false }

def functionOf (name : String) (uniqueId : Nat) (params : List ResolvedId) (body : Resolved) :
    Resolved :=
  .def_ (localId name uniqueId) [] (params.map fun id => { id, ty := ⟨none⟩ }) none none body

def sameModule : StagedModule where
  moduleScope := .ok 5
  resolveProgram start :=
    .ok ([functionOf "same" 3 [localId "x" start] (.var (localId "x" start))], start + 1)

def indexFunction (xs i index : Nat) : Resolved :=
  functionOf "at" 4 [localId "xs" xs, localId "i" i]
    (.facetSegmentAccess (.var (localId "xs" xs)) (.bracket (.var (localId "i" index)) "i"))

def indexModule : StagedModule where
  moduleScope := .ok 5
  resolveProgram start := .ok ([indexFunction start (start + 1) (start + 1)], start + 2)

theorem sameModule_uniform : sameModule.Uniform 5 where
  scope_le _ h := by cases h; exact Nat.le_refl _
  nextId_le _ _ h := by cases h; decide
  uid_lt _ _ h := by cases h; decide
  later_ok _ _ h offset := by
    cases h
    simp [sameModule, functionOf, localId, ResolvedId.rename, renumber,
      ResolvedValueParameter.rename, ResolvedSignatureTy.rename]
    omega
  later_error _ h := by cases h

theorem indexModule_uniform : indexModule.Uniform 5 where
  scope_le _ h := by cases h; exact Nat.le_refl _
  nextId_le _ _ h := by cases h; decide
  uid_lt _ _ h := by cases h; decide
  later_ok _ _ h offset := by
    cases h
    simp [indexModule, indexFunction, functionOf, localId, ResolvedId.rename, renumber,
      ResolvedValueParameter.rename, ResolvedSignatureTy.rename]
    omega
  later_error _ h := by cases h

theorem twoSameModules_merge :
    resolveStage 5 [sameModule, sameModule] = resolveInTurn 5 [sameModule, sameModule] :=
  (stage_merge_iff_reaches_locals 5 [sameModule, sameModule]
    (by simp [sameModule_uniform]) (by decide)).1.mpr fun _ =>
      ⟨fun h => absurd rfl h, fun _ => by decide, trivial⟩

/-- Behind another module the index `i` of `xs.[i]` keeps the id 6 while its
binder moves on to 7: it now reads `xs`. -/
theorem indexModule_bracket_not_rebased : (∀ module ∈ [sameModule, indexModule], module.Uniform 5) ∧
    5 + localIdCounts 5 [sameModule, indexModule] ≤ u32Max ∧
    (resolveStage 5 [sameModule, indexModule]).map (·.1.drop 1) = .ok [[indexFunction 6 7 6]] ∧
    (resolveInTurn 5 [sameModule, indexModule]).map (·.1.drop 1) = .ok [[indexFunction 6 7 7]] ∧
    resolveStage 5 [sameModule, indexModule] ≠ resolveInTurn 5 [sameModule, indexModule] := by
  have hmerged : (resolveStage 5 [sameModule, indexModule]).map (·.1.drop 1) =
      .ok [[indexFunction 6 7 6]] := rfl
  have hturn : (resolveInTurn 5 [sameModule, indexModule]).map (·.1.drop 1) =
      .ok [[indexFunction 6 7 7]] := rfl
  refine ⟨by simp [sameModule_uniform, indexModule_uniform], by decide, hmerged, hturn, ?_⟩
  intro heq
  rw [heq, hturn] at hmerged
  simp [indexFunction, functionOf, localId] at hmerged

end Surtr.Sigil
